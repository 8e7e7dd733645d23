import PlantGrammar.Proofs.Numeric.Order
import PlantGrammar.Proofs.Outcome
import PlantGrammar.Turtle.Basic

/-!
# Parameters that are accepted, and what clamping leaves of them

`Parameters.check` and `Parameters.clamped` draw the same upper bounds but not the
same lower one: every positive number is accepted, while clamping lifts what is
below `leastPositive`. So accepted parameters come through unchanged exactly when
no number of them is that small.
-/

namespace PlantGrammar.Parameters

open Numeric

/-- The numbers of the parameters, in the order of writing. -/
def numbers {α : Type} (p : Parameters α) : List α :=
  [p.branchLength, p.branchWidth, p.branchAngle, p.branchFalloff, p.leafLength, p.leafWidth,
    p.leafAlpha]

/-- Every number lies in its domain, and so does the count of generations. -/
structure InDomain (p : Parameters Float) : Prop where
  iterations : p.iterations ≤ maxIterations
  branchLength : p.branchLength.isFinite = true ∧ 0 < p.branchLength
  branchWidth : p.branchWidth.isFinite = true ∧ 0 < p.branchWidth
  leafLength : p.leafLength.isFinite = true ∧ 0 < p.leafLength
  leafWidth : p.leafWidth.isFinite = true ∧ 0 < p.leafWidth
  branchAngle : 0 < p.branchAngle ∧ p.branchAngle ≤ maxBranchAngle
  leafAlpha : 0 < p.leafAlpha ∧ p.leafAlpha ≤ 1
  branchFalloff : 0 < p.branchFalloff ∧ p.branchFalloff ≤ 1

theorem checkIterations_eq_ok_iff {iterations : UInt32} :
    checkIterations iterations = .ok () ↔ iterations ≤ maxIterations := by
  rw [checkIterations, ← UInt32.not_lt]
  split <;> simp [*]

theorem checkPositive_eq_ok_iff {name : String} {value : Float} :
    checkPositive name value = .ok () ↔ value.isFinite = true ∧ 0 < value := by
  rw [checkPositive]
  split <;> simp [*]

theorem checkUpTo_eq_ok_iff {name reason : String} {value max : Float} :
    checkUpTo name value max reason = .ok () ↔ 0 < value ∧ value ≤ max := by
  rw [checkUpTo]
  split <;> simp [*]

/-- Parameters are accepted iff they lie in their domains. -/
theorem check_eq_ok_iff {p : Parameters Float} : p.check = .ok () ↔ p.InDomain := by
  simp only [check, check_bind_eq_ok_iff, checkIterations_eq_ok_iff, checkPositive_eq_ok_iff,
    checkUpTo_eq_ok_iff]
  constructor
  · rintro ⟨hi, hbl, hbw, hll, hlw, hba, hla, hbf⟩
    exact ⟨hi, hbl, hbw, hll, hlw, hba, hla, hbf⟩
  · rintro ⟨hi, hbl, hbw, hll, hlw, hba, hla, hbf⟩
    exact ⟨hi, hbl, hbw, hll, hlw, hba, hla, hbf⟩

/-! ## Clamping what is accepted -/

/-- A number lifted to the least that clamping leaves. -/
def lifted (x : Float) : Float := if x < leastPositive then leastPositive else x

/-- A number that is finite is not above the greatest finite one. -/
theorem le_greatestFinite {x : Float} (h : x.isFinite = true) : x ≤ greatestFinite := by
  obtain ⟨hnum, -, hhigh⟩ := isFinite_iff.mp h
  have hgreatest : rank greatestFinite = top - 1 := by decide
  exact le_iff.mpr ⟨hnum, by decide, by omega⟩

/-- Below its upper bound a number is only lifted. -/
theorem clampPositive_eq_lifted {x max : Float} (h : x ≤ max) (fallback : Float) :
    clampPositive x max fallback = lifted x := by
  obtain ⟨hnum, -, hrank⟩ := le_iff.mp h
  have hmax : ¬ max < x := by
    intro hlt
    have := (lt_iff.mp hlt).2.2
    omega
  rw [clampPositive, if_neg (Bool.eq_false_iff.mp hnum), if_neg hmax, lifted]

/-- Lifting keeps exactly the numbers from the least on. -/
theorem lifted_eq_self_iff {x : Float} (h : x.isNaN = false) :
    lifted x = x ↔ leastPositive ≤ x := by
  have hleast : leastPositive.isNaN = false := by decide
  rw [lifted]
  split
  · next hsmall =>
    have hrank := (lt_iff.mp hsmall).2.2
    constructor
    · intro heq
      rw [heq] at hrank
      omega
    · intro hle
      have := (le_iff.mp hle).2.2
      omega
  · next hlarge =>
    exact iff_of_true rfl (le_of_not_lt h hleast hlarge)

/-- A count that is not too high is kept. -/
theorem min_maxIterations_of_le {n : UInt32} (h : n ≤ maxIterations) : min n maxIterations = n :=
  if_pos h

/-- Parameters are left alone iff each of their numbers is. -/
theorem map_eq_self_iff {α : Type} {f : α → α} {p : Parameters α} :
    p.map f = p ↔ ∀ x ∈ p.numbers, f x = x := by
  obtain ⟨⟩ := p
  simp only [map, numbers, mk.injEq, List.forall_mem_cons]
  grind

namespace InDomain

variable {p : Parameters Float}

/-- Clamping accepted parameters lifts their numbers and does no more. -/
theorem clamped_eq_map (h : p.InDomain) : p.clamped = p.map lifted := by
  rw [clamped, map, min_maxIterations_of_le h.iterations,
    clampPositive_eq_lifted (le_greatestFinite h.branchLength.1),
    clampPositive_eq_lifted (le_greatestFinite h.branchWidth.1),
    clampPositive_eq_lifted (le_greatestFinite h.leafLength.1),
    clampPositive_eq_lifted (le_greatestFinite h.leafWidth.1),
    clampPositive_eq_lifted h.branchAngle.2, clampPositive_eq_lifted h.leafAlpha.2,
    clampPositive_eq_lifted h.branchFalloff.2]

/-- No accepted number is a non-number. -/
theorem isNaN_eq_false (h : p.InDomain) : ∀ x ∈ p.numbers, x.isNaN = false := by
  have hpos : ∀ {x : Float}, 0 < x → x.isNaN = false := fun h => (lt_iff.mp h).2.1
  simp only [numbers, List.forall_mem_cons]
  exact ⟨hpos h.branchLength.2, hpos h.branchWidth.2, hpos h.branchAngle.1,
    hpos h.branchFalloff.1, hpos h.leafLength.2, hpos h.leafWidth.2, hpos h.leafAlpha.1, nofun⟩

end InDomain

/-- **Accepted parameters come through clamping** unchanged in everything but the
numbers below `leastPositive`, which are lifted to it. So they come through as they
are iff they have no such number, and then a turtle draws with them. -/
theorem clamped_of_check (p : Parameters Float) (h : p.check = .ok ()) :
    p.clamped = p.map lifted ∧
      (p.clamped = p ↔ ∀ x ∈ p.numbers, leastPositive ≤ x) ∧
      ((∀ x ∈ p.numbers, leastPositive ≤ x) →
        ∀ branchLength, (Turtle.start p branchLength).parameters = p) := by
  have hdomain := check_eq_ok_iff.mp h
  have hclamped := hdomain.clamped_eq_map
  have hiff : p.clamped = p ↔ ∀ x ∈ p.numbers, leastPositive ≤ x := by
    rw [hclamped, map_eq_self_iff]
    exact forall₂_congr fun x hx => lifted_eq_self_iff (hdomain.isNaN_eq_false x hx)
  exact ⟨hclamped, hiff, fun hall _ => hiff.mpr hall⟩

/-- Parameters with a leaf of next to no width. -/
def thin : Parameters Float := { standard with leafWidth := 1e-9 }

theorem clamped_of_check_thin :
    thin.check = .ok () ∧ thin.clamped = thin.map lifted ∧
      (thin.clamped = thin ↔ ∀ x ∈ thin.numbers, leastPositive ≤ x) ∧
      ((∀ x ∈ thin.numbers, leastPositive ≤ x) →
        ∀ branchLength, (Turtle.start thin branchLength).parameters = thin) :=
  ⟨rfl, clamped_of_check thin rfl⟩

/-- Parameters may be accepted and yet not come through clamping as they are. -/
theorem clamped_thin_ne : thin.check = .ok () ∧ thin.clamped ≠ thin := by
  refine ⟨rfl, fun h => ?_⟩
  have hbits := congrArg (·.leafWidth.toBits) h
  revert hbits
  decide

end PlantGrammar.Parameters
