import Mathlib.Algebra.BigOperators.Group.Finset.Basic
import PlantGrammar.Proofs.Grammar.Diagnosis

/-!
# Growth counts symbols

How often a symbol stands in the next word follows from how often each symbol stands in
this one. So words with the same symbols in another order stay so, however long they
grow. Within limits two such words share their fate: a pass over one stops at another
symbol than a pass over the other, but both stop in the same generation, because the
whole words they were to write are equally long.
-/

namespace PlantGrammar

/-- Failures of one kind with the same numbers. Only the count at which a later
generation was stopped may differ. -/
inductive Failure.Matches : Failure → Failure → Prop
  | same (failure : Failure) : Matches failure failure
  | stopped {generation : Nat} (later : 1 ≤ generation) (symbols others limit : Nat) :
    Matches (.tooManySymbols generation symbols limit) (.tooManySymbols generation others limit)

/-- Both growths return words with the same symbols, or both fail alike. -/
inductive Agree : Except Failure Word → Except Failure Word → Prop
  | ok {u v : Word} (perm : u.Perm v) : Agree (.ok u) (.ok v)
  | error {e f : Failure} (matching : e.Matches f) : Agree (.error e) (.error f)

/-- Growths that agree still do after steps that agree on words with the same symbols. -/
theorem Agree.bind {x y : Except Failure Word} {f g : Word → Except Failure Word}
    (h : Agree x y) (hstep : ∀ u v : Word, u.Perm v → Agree (f u) (g v)) :
    Agree (x >>= f) (y >>= g) := by
  cases h with
  | ok perm => exact hstep _ _ perm
  | error matching => exact .error matching

namespace RuleSet

variable {rules : List Rule} {limit : Nat} {u v : Word}

/-! ## Free growth -/

theorem rewrite_perm (rules : List Rule) (h : u.Perm v) :
    (rewrite rules u).Perm (rewrite rules v) :=
  h.flatMap_right (image rules)

theorem iterate_perm (rules : List Rule) (h : u.Perm v) (n : Nat) :
    (iterate rules n u).Perm (iterate rules n v) := by
  induction n generalizing u v with
  | zero => exact h
  | succ n ih => exact ih (rewrite_perm rules h)

/-- Each symbol brings what its image holds, as often as it stands in the word. One that
does not stand there would add nothing to the sum. -/
theorem count_rewrite (rules : List Rule) (word : Word) (symbol : Char) :
    (rewrite rules word).count symbol =
      ∑ other ∈ word.toFinset, word.count other * (image rules other).count symbol := by
  rw [rewrite, List.count_flatMap, Finset.sum_list_map_count]
  rfl

/-! ## Growth within limits -/

/-- A generation whose word is too long fails under its number, at some count. -/
theorem exists_generationWithin_eq_error {word : Word}
    (h : limit < (rewrite rules word).length) (generation : Nat) :
    ∃ symbols, generationWithin rules limit generation word =
      .error (.tooManySymbols generation symbols limit) := by
  cases hnext : generationWithin rules limit generation word with
  | ok next =>
    have hfits := (generationWithin_eq_ok_iff.mp hnext).1
    exact absurd h (Nat.not_lt.mpr hfits)
  | error failure =>
    obtain ⟨_, _, rfl⟩ := generationWithin_eq_error_iff.mp hnext
    exact ⟨_, rfl⟩

/-- One generation: the words that are to be written are equally long, so both fit or
neither does. -/
theorem generationWithin_perm {generation : Nat} (hgen : 1 ≤ generation) (h : u.Perm v) :
    Agree (generationWithin rules limit generation u)
      (generationWithin rules limit generation v) := by
  have hwords := rewrite_perm rules h
  have hlength := hwords.length_eq
  by_cases hfits : (rewrite rules u).length ≤ limit
  · rw [generationWithin_eq_ok_iff.mpr ⟨hfits, rfl⟩,
      generationWithin_eq_ok_iff.mpr ⟨hlength ▸ hfits, rfl⟩]
    exact .ok hwords
  · have hlong : limit < (rewrite rules u).length := Nat.lt_of_not_le hfits
    obtain ⟨symbols, hu⟩ := exists_generationWithin_eq_error hlong generation
    obtain ⟨others, hv⟩ := exists_generationWithin_eq_error (hlength ▸ hlong) generation
    rw [hu, hv]
    exact .error (.stopped hgen symbols others limit)

/-- A run of generations, none of which is the start word itself. -/
theorem iterateWithin_perm {remaining : Nat} :
    ∀ {generation : Nat} {u v : Word}, 1 ≤ generation → u.Perm v →
      Agree (iterateWithin rules limit generation remaining u)
        (iterateWithin rules limit generation remaining v) := by
  induction remaining with
  | zero =>
    intro generation u v _ h
    exact .ok h
  | succ remaining ih =>
    intro generation u v hgen h
    rw [iterateWithin, iterateWithin]
    exact (generationWithin_perm hgen h).bind fun _ _ hnext =>
      ih (Nat.le_succ_of_le hgen) hnext

theorem startWithin_perm (h : u.Perm v) (generations : Nat) (limits : Limits) :
    startWithin u generations limits = startWithin v generations limits := by
  rw [startWithin, startWithin, h.length_eq]

theorem expandWithin_perm (rules : List Rule) (h : u.Perm v) (generations : UInt32)
    (limits : Limits) :
    Agree (expandWithin ⟨u, rules⟩ generations limits)
      (expandWithin ⟨v, rules⟩ generations limits) := by
  rw [expandWithin, expandWithin, startWithin_perm h]
  cases startWithin v generations.toNat limits with
  | error failure => exact .error (.same failure)
  | ok _ => exact iterateWithin_perm (Nat.le_refl 1) h

/-- **Growth depends on the counts of symbols only**: start words with the same symbols
grow into words with the same symbols, whose counts follow from those one generation
before; and within limits both return such words, or both are refused alike, in the
same generation. -/
theorem growth_counts_symbols (rules : List Rule) (h : u.Perm v) :
    (∀ n, (expand ⟨u, rules⟩ n).Perm (expand ⟨v, rules⟩ n)) ∧
    (∀ n symbol, (expand ⟨u, rules⟩ (n + 1)).count symbol =
      ∑ other ∈ (expand ⟨u, rules⟩ n).toFinset,
        (expand ⟨u, rules⟩ n).count other * (image rules other).count symbol) ∧
    ∀ generations limits, Agree (expandWithin ⟨u, rules⟩ generations limits)
      (expandWithin ⟨v, rules⟩ generations limits) := by
  refine ⟨iterate_perm rules h, fun n symbol => ?_, expandWithin_perm rules h⟩
  rw [expand, iterate_succ]
  exact count_rewrite rules _ symbol

/-- The first generation is refused for both words, but stopped at another count. -/
theorem growth_counts_symbols_swapped :
    ['A', 'B'].Perm ['B', 'A'] ∧
    expandWithin ⟨['A', 'B'], [⟨'A', ['A', 'A', 'A']⟩]⟩ 1 ⟨1, 2⟩ =
      .error (.tooManySymbols 1 3 2) ∧
    expandWithin ⟨['B', 'A'], [⟨'A', ['A', 'A', 'A']⟩]⟩ 1 ⟨1, 2⟩ =
      .error (.tooManySymbols 1 4 2) ∧
    Agree (.error (.tooManySymbols 1 3 2)) (.error (.tooManySymbols 1 4 2)) := by
  have hwords : ['A', 'B'].Perm ['B', 'A'] := .swap 'B' 'A' []
  exact ⟨hwords, rfl, rfl,
    (growth_counts_symbols [⟨'A', ['A', 'A', 'A']⟩] hwords).2.2 1 ⟨1, 2⟩⟩

end RuleSet

end PlantGrammar
