import PlantGrammar.Proofs.Parameters

/-!
# Clamping repairs

A number that is clamped ends between the least number that clamping leaves and its
upper bound, whatever it was before: the non-number gives way to a standard value,
which lies between the two itself. So clamped parameters are in their domains, and
clamping them again finds nothing to do. Each of the numbers (`Number`) is moved on
its own, and only where it has to be.
-/

namespace PlantGrammar.Parameters

open Numeric

/-- What clamping leaves lies between its two bounds. -/
theorem clampPositive_bounds {x max fallback : Float} (hmax : leastPositive ≤ max)
    (hlow : leastPositive ≤ fallback) (hhigh : fallback ≤ max) :
    leastPositive ≤ clampPositive x max fallback ∧ clampPositive x max fallback ≤ max := by
  obtain ⟨hleastNum, hmaxNum, -⟩ := le_iff.mp hmax
  rw [clampPositive]
  split
  · exact ⟨hlow, hhigh⟩
  · next hnum =>
    have hnum : x.isNaN = false := Bool.eq_false_iff.mpr hnum
    split
    · exact ⟨le_self hleastNum, hmax⟩
    · next hlarge =>
      split
      · exact ⟨hmax, le_self hmaxNum⟩
      · next hsmall => exact ⟨le_of_not_lt hnum hleastNum hlarge, le_of_not_lt hmaxNum hnum hsmall⟩

/-- The least number that clamping leaves is positive, and so is all from there on. -/
theorem pos_of_leastPositive_le {x : Float} (h : leastPositive ≤ x) : 0 < x := by
  obtain ⟨-, hnum, hrank⟩ := le_iff.mp h
  have hleast : 0 < rank leastPositive := by decide
  exact zero_lt_iff.mpr ⟨hnum, by omega⟩

/-- A positive number that is not above the greatest finite one is finite. -/
theorem isFinite_of_le_greatestFinite {x : Float} (hpos : 0 < x) (h : x ≤ greatestFinite) :
    x.isFinite = true := by
  obtain ⟨hnum, hrank⟩ := zero_lt_iff.mp hpos
  obtain ⟨-, -, hle⟩ := le_iff.mp h
  have hgreatest : rank greatestFinite = top - 1 := by decide
  have htop : 0 < top := by decide
  exact isFinite_iff.mpr ⟨hnum, by omega, by omega⟩

/-- A length or a width that is clamped can be drawn. -/
theorem clampPositive_drawable {x fallback : Float} (hlow : leastPositive ≤ fallback)
    (hhigh : fallback ≤ greatestFinite) :
    (clampPositive x greatestFinite fallback).isFinite = true ∧
      0 < clampPositive x greatestFinite fallback := by
  obtain ⟨hleast, hmost⟩ := clampPositive_bounds (x := x) (by decide) hlow hhigh
  have hpos := pos_of_leastPositive_le hleast
  exact ⟨isFinite_of_le_greatestFinite hpos hmost, hpos⟩

/-- A number with an upper bound of its own is clamped into its domain. -/
theorem clampPositive_upTo {x max fallback : Float} (hmax : leastPositive ≤ max)
    (hlow : leastPositive ≤ fallback) (hhigh : fallback ≤ max) :
    0 < clampPositive x max fallback ∧ clampPositive x max fallback ≤ max := by
  obtain ⟨hleast, hmost⟩ := clampPositive_bounds (x := x) hmax hlow hhigh
  exact ⟨pos_of_leastPositive_le hleast, hmost⟩

/-- Clamped parameters lie in their domains, whatever they were before. -/
theorem clamped_inDomain (p : Parameters Float) : p.clamped.InDomain where
  iterations := by
    show (if p.iterations ≤ maxIterations then p.iterations else maxIterations) ≤ maxIterations
    split
    · assumption
    · decide
  branchLength := clampPositive_drawable (by decide) (by decide)
  branchWidth := clampPositive_drawable (by decide) (by decide)
  leafLength := clampPositive_drawable (by decide) (by decide)
  leafWidth := clampPositive_drawable (by decide) (by decide)
  branchAngle := clampPositive_upTo (by decide) (by decide) (by decide)
  leafAlpha := clampPositive_upTo (by decide) (by decide) (by decide)
  branchFalloff := clampPositive_upTo (by decide) (by decide) (by decide)

/-! ## Number by number -/

/-- The numbers of the parameters, by name. -/
inductive Number where
  | branchLength
  | branchWidth
  | branchAngle
  | branchFalloff
  | leafLength
  | leafWidth
  | leafAlpha

namespace Number

/-- The number of that name. -/
def of {α : Type} (number : Number) (p : Parameters α) : α :=
  match number with
  | branchLength => p.branchLength
  | branchWidth => p.branchWidth
  | branchAngle => p.branchAngle
  | branchFalloff => p.branchFalloff
  | leafLength => p.leafLength
  | leafWidth => p.leafWidth
  | leafAlpha => p.leafAlpha

/-- The largest that clamping leaves of the number. -/
def most : Number → Float
  | branchLength => greatestFinite
  | branchWidth => greatestFinite
  | branchAngle => 90
  | branchFalloff => 1
  | leafLength => greatestFinite
  | leafWidth => greatestFinite
  | leafAlpha => 1

/-- `x` lies in the interval that clamping moves the number into. -/
def Keeps (number : Number) (x : Float) : Prop := leastPositive ≤ x ∧ x ≤ number.most

theorem of_clamped (number : Number) (p : Parameters Float) :
    number.of p.clamped = clampPositive (number.of p) number.most (number.of standard) := by
  cases number <;> rfl

theorem keeps_standard (number : Number) : number.Keeps (number.of standard) := by
  rw [Keeps]
  cases number <;> decide

theorem leastPositive_le_most (number : Number) : leastPositive ≤ number.most := by
  cases number <;> decide

theorem keeps_of_clamped (number : Number) (p : Parameters Float) :
    number.Keeps (number.of p.clamped) := by
  obtain ⟨hlow, hhigh⟩ := number.keeps_standard
  rw [of_clamped]
  exact clampPositive_bounds number.leastPositive_le_most hlow hhigh

end Number

/-- Parameters are told apart by their count, their colours and their numbers. -/
theorem eq_of_number {α : Type} {p q : Parameters α} (hiterations : p.iterations = q.iterations)
    (hbranch : p.branchColor = q.branchColor) (hleaf : p.leafColor = q.leafColor)
    (h : ∀ number : Number, number.of p = number.of q) : p = q := by
  have hbl := h .branchLength
  have hbw := h .branchWidth
  have hba := h .branchAngle
  have hbf := h .branchFalloff
  have hll := h .leafLength
  have hlw := h .leafWidth
  have hla := h .leafAlpha
  cases p
  cases q
  simp only [Number.of] at hbl hbw hba hbf hll hlw hla
  simp only at hiterations hbranch hleaf
  subst hiterations hbranch hleaf hbl hbw hba hbf hll hlw hla
  rfl

/-! ## Where a number is moved -/

variable {x max fallback : Float}

theorem clampPositive_of_isNaN (h : x.isNaN = true) : clampPositive x max fallback = fallback :=
  if_pos h

theorem clampPositive_of_mem (hlow : leastPositive ≤ x) (hhigh : x ≤ max) :
    clampPositive x max fallback = x := by
  rw [clampPositive_eq_lifted hhigh, lifted_eq_self_iff (le_iff.mp hlow).2.1]
  exact hlow

theorem clampPositive_of_lt (h : x < leastPositive) :
    clampPositive x max fallback = leastPositive := by
  have hnum := (lt_iff.mp h).1
  rw [clampPositive, if_neg (Bool.eq_false_iff.mp hnum), if_pos h]

theorem clampPositive_of_gt (hmax : leastPositive ≤ max) (h : max < x) :
    clampPositive x max fallback = max := by
  obtain ⟨-, hnum, hrank⟩ := lt_iff.mp h
  have hlarge : ¬ x < leastPositive := by
    intro hsmall
    have hbelow := (lt_iff.mp hsmall).2.2
    have hbounds := (le_iff.mp hmax).2.2
    omega
  rw [clampPositive, if_neg (Bool.eq_false_iff.mp hnum), if_neg hlarge, if_pos h]

/-- A number that is not kept lies beyond one of the two ends. -/
theorem Number.lt_or_gt_of_not_keeps {number : Number} (hnum : x.isNaN = false)
    (h : ¬ number.Keeps x) : x < leastPositive ∨ number.most < x := by
  obtain ⟨hleast, hmost, -⟩ := le_iff.mp number.leastPositive_le_most
  by_contra hinside
  obtain ⟨hlarge, hsmall⟩ := not_or.mp hinside
  exact h ⟨le_of_not_lt hnum hleast hlarge, le_of_not_lt hmost hnum hsmall⟩

/-- Of too many generations the most there may be are left. -/
theorem min_maxIterations_of_lt {n : UInt32} (h : maxIterations < n) :
    min n maxIterations = maxIterations :=
  if_neg (UInt32.not_le.mpr h)

/-- Clamping what is clamped changes nothing. -/
theorem clamped_clamped (p : Parameters Float) : p.clamped.clamped = p.clamped := by
  refine eq_of_number ?_ rfl rfl fun number => ?_
  · exact min_maxIterations_of_le p.clamped_inDomain.iterations
  · obtain ⟨hlow, hhigh⟩ := number.keeps_of_clamped p
    rw [number.of_clamped p.clamped, clampPositive_of_mem hlow hhigh]

/-- **Clamping repairs**: whatever the parameters, once clamped they are accepted, and
clamping them again changes nothing. Each number is kept if it lies in its interval,
gives way to the standard one if it is a non-number, and otherwise becomes the end that
it lies beyond; what becomes of it depends on no other. At most five generations are
left, and the colours are left alone. -/
theorem clamped_repairs (p : Parameters Float) :
    p.clamped.check = .ok () ∧ p.clamped.clamped = p.clamped ∧
      (∀ number : Number,
        (number.Keeps (number.of p) → number.of p.clamped = number.of p) ∧
        ((number.of p).isNaN = true → number.of p.clamped = number.of standard) ∧
        ((number.of p).isNaN = false → ¬ number.Keeps (number.of p) →
          number.of p < leastPositive ∧ number.of p.clamped = leastPositive ∨
            number.most < number.of p ∧ number.of p.clamped = number.most) ∧
        ∀ q : Parameters Float, number.of q = number.of p →
          number.of q.clamped = number.of p.clamped) ∧
      ((p.iterations ≤ 5 → p.clamped.iterations = p.iterations) ∧
        (5 < p.iterations → p.clamped.iterations = 5)) ∧
      p.clamped.branchColor = p.branchColor ∧ p.clamped.leafColor = p.leafColor := by
  refine ⟨check_eq_ok_iff.mpr p.clamped_inDomain, p.clamped_clamped,
    fun number => ⟨?_, fun hnum => ?_, fun hnum houtside => ?_, fun q heq => ?_⟩,
    ⟨fun hfew => min_maxIterations_of_le hfew, fun hmany => min_maxIterations_of_lt hmany⟩,
    rfl, rfl⟩
  · rintro ⟨hlow, hhigh⟩
    rw [number.of_clamped, clampPositive_of_mem hlow hhigh]
  · rw [number.of_clamped, clampPositive_of_isNaN hnum]
  · rw [number.of_clamped]
    rcases number.lt_or_gt_of_not_keeps hnum houtside with hbelow | habove
    · exact .inl ⟨hbelow, clampPositive_of_lt hbelow⟩
    · exact .inr ⟨habove, clampPositive_of_gt number.leastPositive_le_most habove⟩
  · rw [number.of_clamped, number.of_clamped, heq]

end PlantGrammar.Parameters
