import PlantGrammar.Grammar.Catalog
import PlantGrammar.Proofs.Brackets

/-!
# Rewriting keeps brackets nested

A rule set whose words never close more than they open, and which leaves the
brackets themselves alone, grows such words only: rewriting replaces a symbol by
a group that leaves what is open before it untouched. If the words also close
all they open, so do the grown ones. The presets of the catalogue are of this
kind.
-/

namespace PlantGrammar

/-- What a symbol does to the groups around it. -/
def Bracket.ofSymbol (symbol : Char) : Bracket :=
  if symbol = '[' then .opening else if symbol = ']' then .closing else .plain

theorem Bracket.ofSymbol_eq_plain {symbol : Char} (hopen : symbol ≠ '[')
    (hclose : symbol ≠ ']') : ofSymbol symbol = .plain := by
  rw [ofSymbol, if_neg hopen, if_neg hclose]

/-- The brackets of a word, and a plain mark for each other symbol. -/
def marks (word : Word) : List Bracket := word.map Bracket.ofSymbol

@[simp] theorem marks_nil : marks [] = [] := rfl

@[simp] theorem marks_cons (symbol : Char) (word : Word) :
    marks (symbol :: word) = Bracket.ofSymbol symbol :: marks word := rfl

@[simp] theorem marks_append (u v : Word) : marks (u ++ v) = marks u ++ marks v :=
  List.map_append

@[simp] theorem length_marks (word : Word) : (marks word).length = word.length :=
  List.length_map _

/-- The marks count the brackets of the word. -/
theorem count_marks (word : Word) :
    (marks word).count .opening = word.count '[' ∧
      (marks word).count .closing = word.count ']' := by
  induction word with
  | nil => exact ⟨rfl, rfl⟩
  | cons symbol word ih =>
    simp only [marks_cons, List.count_cons, ih, Bracket.ofSymbol]
    by_cases hopen : symbol = '['
    · simp [hopen]
    · by_cases hclose : symbol = ']' <;> simp [hopen, hclose]

/-! ## Words -/

/-- No prefix of the word has more `]` than `[`. -/
def Nests (word : Word) : Prop := ∀ part, part <+: word → part.count ']' ≤ part.count '['

/-- The word has as many `[` as `]`. -/
def Balances (word : Word) : Prop := word.count '[' = word.count ']'

instance (word : Word) : Decidable (Nests word) :=
  decidable_of_iff (∀ part ∈ word.inits, part.count ']' ≤ part.count '[')
    (by simp [Nests])

instance (word : Word) : Decidable (Balances word) :=
  inferInstanceAs (Decidable (_ = _))

theorem nests_iff {word : Word} : Nests word ↔ Bracket.ClosesWithin 0 (marks word) := by
  constructor
  · intro h part hpart
    obtain ⟨front, hfront, rfl⟩ := List.prefix_map_iff.mp hpart
    have hcount := h front hfront
    have hmarks := count_marks front
    rw [marks] at hmarks
    omega
  · intro h part hpart
    have hcount := h (marks part) (hpart.map _)
    have hmarks := count_marks part
    omega

theorem balanced_marks_iff {word : Word} :
    Bracket.Balanced (marks word) ↔ Nests word ∧ Balances word := by
  have hmarks := count_marks word
  constructor
  · intro h
    refine ⟨nests_iff.mpr h.closes, ?_⟩
    rw [Balances, ← hmarks.1, ← hmarks.2, h.even]
  · rintro ⟨hnest, hbalance⟩
    refine ⟨nests_iff.mp hnest, ?_⟩
    rw [hmarks.1, hmarks.2, hbalance]

/-! ## Rule sets -/

namespace RuleSet

/-- No rule rewrites a bracket, and neither the start word nor any successor
closes more than it opened. -/
structure AllNest (g : RuleSet) : Prop where
  brackets : ∀ rule ∈ g.rules, rule.predecessor ≠ '[' ∧ rule.predecessor ≠ ']'
  start : Nests g.start
  successors : ∀ rule ∈ g.rules, Nests rule.successor

/-- The start word and every successor have as many `[` as `]`. -/
structure AllBalance (g : RuleSet) : Prop where
  start : Balances g.start
  successors : ∀ rule ∈ g.rules, Balances rule.successor

instance (g : RuleSet) : Decidable g.AllNest :=
  decidable_of_iff
    ((∀ rule ∈ g.rules, rule.predecessor ≠ '[' ∧ rule.predecessor ≠ ']') ∧
      Nests g.start ∧ ∀ rule ∈ g.rules, Nests rule.successor)
    ⟨fun h => ⟨h.1, h.2.1, h.2.2⟩, fun h => ⟨h.brackets, h.start, h.successors⟩⟩

instance (g : RuleSet) : Decidable g.AllBalance :=
  decidable_of_iff (Balances g.start ∧ ∀ rule ∈ g.rules, Balances rule.successor)
    ⟨fun h => ⟨h.1, h.2⟩, fun h => ⟨h.start, h.successors⟩⟩

/-- A symbol becomes the successor of a rule for it, or stays. -/
theorem image_cases (rules : List Rule) (symbol : Char) :
    (∃ rule ∈ rules, rule.predecessor = symbol ∧ image rules symbol = rule.successor) ∨
      image rules symbol = [symbol] := by
  cases hrule : rule? rules symbol with
  | some rule =>
    left
    refine ⟨rule, List.mem_of_find?_eq_some hrule, ?_, by simp [image, hrule]⟩
    simpa using List.find?_some hrule
  | none =>
    right
    simp [image, hrule]

variable {g : RuleSet}

/-- A symbol that is rewritten leaves the groups around it open; any other symbol,
a bracket among them, stands for itself. -/
theorem AllNest.closesWithin_image (h : g.AllNest) (d : Nat) (symbol : Char)
    (hclose : Bracket.ofSymbol symbol = .closing → 0 < d) :
    Bracket.ClosesWithin d (marks (image g.rules symbol)) ∧
      Bracket.step d (Bracket.ofSymbol symbol) ≤
        Bracket.depth d (marks (image g.rules symbol)) := by
  rcases image_cases g.rules symbol with ⟨rule, hrule, rfl, himage⟩ | himage
  · have hsucc := nests_iff.mp (h.successors rule hrule)
    obtain ⟨hopen, hshut⟩ := h.brackets rule hrule
    rw [himage]
    refine ⟨hsucc.mono (Nat.zero_le d), ?_⟩
    rw [Bracket.ofSymbol_eq_plain hopen hshut]
    exact hsucc.le_depth
  · rw [himage]
    refine ⟨?_, Nat.le_refl _⟩
    exact Bracket.closesWithin_cons.mpr ⟨hclose, Bracket.closesWithin_nil _⟩

/-- Rewriting closes no more than the word did, even where more is open. -/
theorem AllNest.closesWithin_rewrite (h : g.AllNest) {word : Word} :
    ∀ {d e : Nat}, d ≤ e → Bracket.ClosesWithin d (marks word) →
      Bracket.ClosesWithin e (marks (rewrite g.rules word)) := by
  induction word with
  | nil => exact fun _ _ => Bracket.closesWithin_nil _
  | cons symbol word ih =>
    intro d e hde hword
    obtain ⟨hclose, hrest⟩ := Bracket.closesWithin_cons.mp hword
    obtain ⟨himage, hdepth⟩ := h.closesWithin_image e symbol
      fun hmark => Nat.lt_of_lt_of_le (hclose hmark) hde
    rw [rewrite_cons, marks_append, Bracket.closesWithin_append]
    refine ⟨himage, ih (Nat.le_trans ?_ hdepth) hrest⟩
    cases Bracket.ofSymbol symbol <;> simp [Bracket.step] <;> omega

/-- Every generation of such a rule set nests. -/
theorem AllNest.nests_expand (h : g.AllNest) (n : Nat) : Nests (g.expand n) := by
  induction n with
  | zero => exact h.start
  | succ n ih =>
    rw [expand, iterate_succ, nests_iff]
    exact h.closesWithin_rewrite (Nat.le_refl 0) (nests_iff.mp ih)

/-- Rewriting adds as many `[` as `]`. -/
theorem AllBalance.count_rewrite (hbalance : g.AllBalance) (hnest : g.AllNest)
    (word : Word) :
    (rewrite g.rules word).count '[' + word.count ']' =
      (rewrite g.rules word).count ']' + word.count '[' := by
  induction word with
  | nil => rfl
  | cons symbol word ih =>
    rw [rewrite_cons, List.count_append, List.count_append, List.count_cons,
      List.count_cons]
    rcases image_cases g.rules symbol with ⟨rule, hrule, rfl, himage⟩ | himage
    · have hsucc : rule.successor.count '[' = rule.successor.count ']' :=
        hbalance.successors rule hrule
      obtain ⟨hopen, hclose⟩ := hnest.brackets rule hrule
      rw [himage, beq_false_of_ne hopen, beq_false_of_ne hclose]
      simp only [Bool.false_eq_true, if_false]
      omega
    · rw [himage, List.count_singleton, List.count_singleton]
      omega

/-- Every generation of such a rule set balances. -/
theorem AllBalance.balances_expand (hbalance : g.AllBalance) (hnest : g.AllNest)
    (n : Nat) : Balances (g.expand n) := by
  induction n with
  | zero => exact hbalance.start
  | succ n ih =>
    have hcount := hbalance.count_rewrite hnest (g.expand n)
    rw [Balances] at ih ⊢
    rw [expand, iterate_succ, ← expand]
    omega

end RuleSet

/-! ## The catalogue -/

/-- Every preset of the catalogue nests and balances. -/
theorem Preset.allNest_allBalance :
    ∀ preset ∈ Preset.all, preset.rules.AllNest ∧ preset.rules.AllBalance := by
  decide +kernel

end PlantGrammar
