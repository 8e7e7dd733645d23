import Mathlib.Order.Monotone.Basic
import PlantGrammar.Proofs.Grammar.Precedence
import PlantGrammar.Proofs.Grammar.Within

/-!
# Rules that erase nothing

Where the rule in force for a symbol always puts something in its place, a word never
gets shorter. The last word of a growth is then the longest, and if it fits the limit
all words on the way did. A rule that is never in force may erase what it likes.
-/

namespace PlantGrammar.RuleSet

variable {rules : List Rule} {g : RuleSet}

/-- No rule that is the first for its symbol erases it. -/
def NonErasing (rules : List Rule) : Prop :=
  ∀ i, Leads rules i → (rules.get i).successor ≠ []

instance (rules : List Rule) : Decidable (NonErasing rules) :=
  inferInstanceAs (Decidable (∀ i, Leads rules i → _))

theorem NonErasing.image_ne_nil (h : NonErasing rules) (symbol : Char) :
    image rules symbol ≠ [] := by
  rw [image]
  cases hrule : rule? rules symbol with
  | none => exact List.cons_ne_nil symbol []
  | some rule =>
    obtain ⟨i, hleads, rfl, _⟩ := rule?_eq_some_iff.mp hrule
    exact h i hleads

theorem NonErasing.length_le_rewrite (h : NonErasing rules) (word : Word) :
    word.length ≤ (rewrite rules word).length := by
  induction word with
  | nil => exact Nat.le_refl 0
  | cons symbol word ih =>
    have himage := List.length_pos_iff.mpr (h.image_ne_nil symbol)
    rw [rewrite_cons, List.length_append, List.length_cons]
    omega

theorem NonErasing.monotone_length_expand (h : NonErasing g.rules) :
    Monotone fun n => (g.expand n).length := by
  refine monotone_nat_of_le_succ fun n => ?_
  rw [expand, expand, iterate_succ]
  exact h.length_le_rewrite _

/-- **Without erasing rules the last word decides**: words only get longer from one
generation to the next, so growth within limits that allow its generations succeeds
iff the word it is to return fits. -/
theorem expandWithin_ok_iff_last_fits (h : NonErasing g.rules) :
    (∀ m n, m ≤ n → (g.expand m).length ≤ (g.expand n).length) ∧
    ∀ (generations : UInt32) (limits : Limits), generations ≤ limits.maxGenerations →
      ((∃ word, g.expandWithin generations limits = .ok word) ↔
        (g.expand generations.toNat).length ≤ limits.maxSymbols.toNat) := by
  have hlonger := h.monotone_length_expand
  refine ⟨fun m n hmn => hlonger hmn, fun generations limits hgens => ?_⟩
  constructor
  · rintro ⟨word, hword⟩
    obtain ⟨⟨_, hfits⟩, _⟩ := expandWithin_eq_ok_iff.mp hword
    exact hfits _ (Nat.le_refl _)
  · intro hlast
    refine ⟨_, expandWithin_eq_ok_iff.mpr ⟨⟨hgens, fun k hk => ?_⟩, rfl⟩⟩
    exact Nat.le_trans (hlonger hk) hlast

/-- A second rule for `F` would erase it, but is never in force. -/
theorem expandWithin_ok_iff_last_fits_shadowed :
    NonErasing [⟨'F', ['F', '+', 'F']⟩, ⟨'F', []⟩] ∧
    (2 : UInt32) ≤ Limits.maxGenerations ⟨2, 7⟩ ∧
    ∃ word, expandWithin ⟨['F'], [⟨'F', ['F', '+', 'F']⟩, ⟨'F', []⟩]⟩ 2 ⟨2, 7⟩ = .ok word := by
  have hrules : NonErasing [⟨'F', ['F', '+', 'F']⟩, ⟨'F', []⟩] := by decide
  have hgens : (2 : UInt32) ≤ Limits.maxGenerations ⟨2, 7⟩ := by decide
  refine ⟨hrules, hgens, ?_⟩
  exact ((expandWithin_ok_iff_last_fits (g := ⟨['F'], _⟩) hrules).2 2 ⟨2, 7⟩ hgens).mpr (by decide)

end PlantGrammar.RuleSet
