import PlantGrammar.Grammar.Bounded
import PlantGrammar.Proofs.Outcome

/-!
# Growing within limits, against growing freely

`RuleSet.expandWithin` counts while it writes and may stop in the middle of a
generation; `RuleSet.expand` never counts. The two are tied together one loop at
a time: a pass over a word, a numbered generation, a run of generations. Each
loop succeeds exactly when what the free one would write fits the limit, and
then it has written the same.
-/

namespace PlantGrammar.RuleSet

/-- A pass that starts within the limit ends well iff everything it is to write
fits too. The count only grows, so the check after the last symbol decides. -/
theorem rewriteWithin_eq_ok_iff {rules : List Rule} {limit : Nat} {word : Word} :
    ∀ {done out : Word} {count : Nat}, count ≤ limit →
      (rewriteWithin rules limit done count word = .ok out ↔
        count + (rewrite rules word).length ≤ limit ∧
          out = done.reverse ++ rewrite rules word) := by
  induction word with
  | nil =>
      intro done out count hcount
      simp [rewriteWithin, hcount, eq_comm]
  | cons symbol word ih =>
      intro done out count hcount
      simp only [rewriteWithin, rewrite_cons, List.length_append]
      by_cases hover : limit < count + (image rules symbol).length
      · -- stopped here: the part written so far alone is too long
        simp only [if_pos hover, reduceCtorEq, false_iff, not_and]
        omega
      · rw [if_neg hover, ih (Nat.le_of_not_lt hover)]
        simp [List.append_assoc, Nat.add_assoc]

/-- A numbered generation succeeds iff the rewritten word fits. -/
theorem generationWithin_eq_ok_iff {rules : List Rule} {limit generation : Nat}
    {word out : Word} :
    generationWithin rules limit generation word = .ok out ↔
      (rewrite rules word).length ≤ limit ∧ out = rewrite rules word := by
  rw [generationWithin, mapError_eq_ok_iff, rewriteWithin_eq_ok_iff (Nat.zero_le _)]
  simp

/-- Growth may begin iff the generations are allowed and the start word fits. -/
theorem startWithin_eq_ok_iff {start : Word} {generations : Nat} {limits : Limits} :
    startWithin start generations limits = .ok () ↔
      generations ≤ limits.maxGenerations.toNat ∧
        start.length ≤ limits.maxSymbols.toNat := by
  rw [startWithin]
  split
  · simp only [reduceCtorEq, false_iff, not_and]
    omega
  · split
    · simp only [reduceCtorEq, false_iff, not_and]
      omega
    · simp only [true_iff]
      omega

/-- A run of generations succeeds iff the word fits after each of them. -/
theorem iterateWithin_eq_ok_iff {rules : List Rule} {limit remaining : Nat} :
    ∀ {generation : Nat} {word out : Word},
      iterateWithin rules limit generation remaining word = .ok out ↔
        (∀ k < remaining, (iterate rules (k + 1) word).length ≤ limit) ∧
          out = iterate rules remaining word := by
  induction remaining with
  | zero =>
      intro generation word out
      simp [iterateWithin, iterate, eq_comm]
  | succ remaining ih =>
      intro generation word out
      rw [iterateWithin, bind_eq_ok_iff, Nat.forall_lt_succ_left]
      constructor
      · rintro ⟨next, hnext, hrest⟩
        obtain ⟨hfits, rfl⟩ := generationWithin_eq_ok_iff.mp hnext
        obtain ⟨hlater, rfl⟩ := ih.mp hrest
        exact ⟨⟨hfits, hlater⟩, rfl⟩
      · rintro ⟨⟨hfits, hlater⟩, rfl⟩
        exact ⟨_, generationWithin_eq_ok_iff.mpr ⟨hfits, rfl⟩, ih.mpr ⟨hlater, rfl⟩⟩

/-- Growth within limits returns a word iff the generations are allowed and every
word on the way fits, the start word included; the word is the one of free
growth. -/
theorem expandWithin_eq_ok_iff {g : RuleSet} {generations : UInt32}
    {limits : Limits} {word : Word} :
    g.expandWithin generations limits = .ok word ↔
      (generations ≤ limits.maxGenerations ∧
        ∀ k ≤ generations.toNat, (g.expand k).length ≤ limits.maxSymbols.toNat) ∧
      word = g.expand generations.toNat := by
  have hevery : (∀ k ≤ generations.toNat, (g.expand k).length ≤ limits.maxSymbols.toNat) ↔
      g.start.length ≤ limits.maxSymbols.toNat ∧
        ∀ k < generations.toNat, (g.expand (k + 1)).length ≤ limits.maxSymbols.toNat := by
    simp only [← Nat.lt_succ_iff, Nat.forall_lt_succ_left, expand_zero]
  rw [expandWithin, bind_eq_ok_iff, hevery, UInt32.le_iff_toNat_le]
  constructor
  · rintro ⟨⟨⟩, hstart, hrun⟩
    obtain ⟨hgens, haxiom⟩ := startWithin_eq_ok_iff.mp hstart
    obtain ⟨hlater, rfl⟩ := iterateWithin_eq_ok_iff.mp hrun
    exact ⟨⟨hgens, haxiom, hlater⟩, rfl⟩
  · rintro ⟨⟨hgens, haxiom, hlater⟩, rfl⟩
    exact ⟨(), startWithin_eq_ok_iff.mpr ⟨hgens, haxiom⟩,
      iterateWithin_eq_ok_iff.mpr ⟨hlater, rfl⟩⟩

/-- **Bounded growth refines free growth**: it succeeds exactly when the count of
generations is allowed and no generation up to the last outgrows the limit, and
what it returns is what free growth returns. -/
theorem expandWithin_refines_expand (g : RuleSet) (generations : UInt32)
    (limits : Limits) :
    ((∃ word, g.expandWithin generations limits = .ok word) ↔
      generations ≤ limits.maxGenerations ∧
        ∀ k ≤ generations.toNat, (g.expand k).length ≤ limits.maxSymbols.toNat) ∧
    ∀ word, g.expandWithin generations limits = .ok word →
      word = g.expand generations.toNat := by
  constructor
  · simp [expandWithin_eq_ok_iff]
  · intro word hword
    exact (expandWithin_eq_ok_iff.mp hword).2

end PlantGrammar.RuleSet
