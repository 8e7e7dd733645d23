import Mathlib.Logic.Equiv.Basic
import Mathlib.Logic.Relation
import PlantGrammar.Proofs.Grammar.Growth

/-!
# Which rule is in force

Of several rules for one symbol the first is in force; the others are never looked at.
So a rule list says the same after a rule that stands behind another for its symbol is
taken out, and after the rules are put in any order that leaves those for one symbol
among each other as they were (`Edit`). An edit leaves the rule in force for every
symbol as it was, and growing sees a rule list through the images of the symbols alone.
-/

namespace PlantGrammar.RuleSet

variable {rules later : List Rule} {symbol : Char}

/-! ## The first rule for a symbol -/

/-- The rule at a position is the first for its symbol. -/
def Leads (rules : List Rule) (i : Fin rules.length) : Prop :=
  ∀ j < i, (rules.get j).predecessor ≠ (rules.get i).predecessor

instance (rules : List Rule) (i : Fin rules.length) : Decidable (Leads rules i) :=
  inferInstanceAs (Decidable (∀ j < i, _))

theorem rule?_eq_some_iff {rule : Rule} :
    rule? rules symbol = some rule ↔
      ∃ i, Leads rules i ∧ rules.get i = rule ∧ rule.predecessor = symbol := by
  rw [rule?, List.find?_eq_some_iff_getElem, beq_iff_eq]
  constructor
  · rintro ⟨rfl, i, hi, rfl, hearlier⟩
    refine ⟨⟨i, hi⟩, fun j hj => ?_, rfl, rfl⟩
    simpa using hearlier j hj
  · rintro ⟨i, hleads, rfl, rfl⟩
    refine ⟨rfl, i, i.isLt, rfl, fun j hj => ?_⟩
    simpa using hleads ⟨j, Nat.lt_trans hj i.isLt⟩ hj

theorem rule?_eq_none_iff :
    rule? rules symbol = none ↔ ∀ i, (rules.get i).predecessor ≠ symbol := by
  simp [rule?, List.mem_iff_get]

/-! ## Edits that say the same -/

/-- Every rule of one list goes to a place of its own in the other, and rules for one
symbol stay in order. -/
structure Reordering (rules later : List Rule) where
  place : Fin rules.length ≃ Fin later.length
  get_place : ∀ i, later.get (place i) = rules.get i
  keeps : ∀ i j, i < j → (rules.get i).predecessor = (rules.get j).predecessor →
    place i < place j

/-- A change to a rule list that leaves the first rule for every symbol the first. -/
inductive Edit : List Rule → List Rule → Prop
  /-- A rule is taken out from behind another one for its symbol. -/
  | remove (front back : List Rule) {earlier rule : Rule} (mem : earlier ∈ front)
      (same : earlier.predecessor = rule.predecessor) :
      Edit (front ++ rule :: back) (front ++ back)
  /-- The rules are put in another order. -/
  | reorder {rules later : List Rule} (order : Reordering rules later) : Edit rules later

/-- A rule that stands behind another for its symbol is never found. -/
theorem rule?_remove (front back : List Rule) {earlier rule : Rule} (mem : earlier ∈ front)
    (same : earlier.predecessor = rule.predecessor) :
    rule? (front ++ rule :: back) symbol = rule? (front ++ back) symbol := by
  rw [rule?, rule?, List.find?_append, List.find?_append]
  by_cases hsymbol : rule.predecessor = symbol
  · -- the earlier rule is found, or one in front of that
    have hfound : (front.find? fun rule => rule.predecessor == symbol).isSome := by
      rw [List.find?_isSome]
      exact ⟨earlier, mem, by simp [same, hsymbol]⟩
    rw [Option.or_of_isSome hfound, Option.or_of_isSome hfound]
  · rw [List.find?_cons_of_neg (by simpa using hsymbol)]

theorem Reordering.get_eq (order : Reordering rules later) (j : Fin later.length) :
    later.get j = rules.get (order.place.symm j) := by
  rw [← order.get_place, Equiv.apply_symm_apply]

/-- The first rule for a symbol is still the first after a reordering: no other rule for
it can come to stand in front. -/
theorem Reordering.leads (order : Reordering rules later) {i : Fin rules.length}
    (h : Leads rules i) : Leads later (order.place i) := by
  intro j hj hsame
  rw [order.get_place, order.get_eq] at hsame
  -- the rule that stands in front now came from in front, is the same one, or came from
  -- behind, where `keeps` would have left it
  rcases Nat.lt_trichotomy (order.place.symm j) i with hlt | heq | hgt
  · exact h _ hlt hsame
  · have hplace : order.place.symm j = i := Fin.ext heq
    rw [← hplace, Equiv.apply_symm_apply] at hj
    exact Nat.lt_irrefl _ hj
  · have hkept := order.keeps i (order.place.symm j) hgt hsame.symm
    rw [Equiv.apply_symm_apply] at hkept
    exact Nat.lt_asymm hj hkept

theorem Reordering.rule?_eq (order : Reordering rules later) :
    rule? later symbol = rule? rules symbol := by
  cases hrule : rule? rules symbol with
  | none =>
    have hnone := rule?_eq_none_iff.mp hrule
    refine rule?_eq_none_iff.mpr fun j => ?_
    rw [order.get_eq]
    exact hnone _
  | some rule =>
    obtain ⟨i, hleads, hget, hsymbol⟩ := rule?_eq_some_iff.mp hrule
    refine rule?_eq_some_iff.mpr ⟨order.place i, order.leads hleads, ?_, hsymbol⟩
    rw [order.get_place, hget]

theorem Edit.rule?_eq (h : Edit rules later) : rule? rules symbol = rule? later symbol := by
  cases h with
  | remove front back mem same => exact rule?_remove front back mem same
  | reorder order => exact order.rule?_eq.symm

/-- Any number of edits, done or undone, leaves every rule in force. -/
theorem rule?_of_eqvGen (h : Relation.EqvGen Edit rules later) :
    rule? rules = rule? later := by
  induction h with
  | rel _ _ h => exact funext fun symbol => h.rule?_eq
  | refl _ => rfl
  | symm _ _ _ ih => exact ih.symm
  | trans _ _ _ _ _ ih₁ ih₂ => exact ih₁.trans ih₂

/-! ## Growing by the images alone -/

theorem image_congr (h : rule? rules = rule? later) : image rules = image later := by
  funext symbol
  rw [image, image, h]

theorem iterate_congr (h : image rules = image later) (n : Nat) (word : Word) :
    iterate rules n word = iterate later n word := by
  induction n generalizing word with
  | zero => rfl
  | succ n ih => rw [iterate, iterate, rewrite, rewrite, h, ih]

theorem rewriteWithin_congr (h : image rules = image later) {limit : Nat} {word : Word} :
    ∀ (done : Word) (count : Nat),
      rewriteWithin rules limit done count word = rewriteWithin later limit done count word := by
  induction word with
  | nil =>
    intro done count
    rfl
  | cons symbol word ih =>
    intro done count
    simp only [rewriteWithin, h, ih]

theorem iterateWithin_congr (h : image rules = image later) {limit remaining : Nat} :
    ∀ (generation : Nat) (word : Word),
      iterateWithin rules limit generation remaining word =
        iterateWithin later limit generation remaining word := by
  induction remaining with
  | zero =>
    intro generation word
    rfl
  | succ remaining ih =>
    intro generation word
    simp only [iterateWithin, generationWithin, rewriteWithin_congr h, ih]

theorem expandWithin_congr (h : image rules = image later) (start : Word)
    (generations : UInt32) (limits : Limits) :
    expandWithin ⟨start, rules⟩ generations limits =
      expandWithin ⟨start, later⟩ generations limits := by
  simp only [expandWithin, iterateWithin_congr h]

/-- **Only the order of the rules for one symbol matters**: rule lists that edits lead
from one to the other find the same rule for every symbol, and grow the same words,
freely, within limits and with a branch length, where they are refused for the same
causes. -/
theorem edited_rules_grow_alike (h : Relation.EqvGen Edit rules later) :
    (∀ symbol, rule? rules symbol = rule? later symbol) ∧
    (∀ start n, expand ⟨start, rules⟩ n = expand ⟨start, later⟩ n) ∧
    (∀ start generations limits, expandWithin ⟨start, rules⟩ generations limits =
      expandWithin ⟨start, later⟩ generations limits) ∧
    ∀ start generations branchLength falloff limits,
      grow ⟨start, rules⟩ generations branchLength falloff limits =
        grow ⟨start, later⟩ generations branchLength falloff limits := by
  have hrule := rule?_of_eqvGen h
  have himage := image_congr hrule
  refine ⟨fun symbol => by rw [hrule], fun start n => iterate_congr himage n start,
    expandWithin_congr himage, fun start generations branchLength falloff limits => ?_⟩
  rw [grow_eq_map, grow_eq_map, expandWithin_congr himage]

/-- The first two of three rules change places, and the third is taken out from behind
the one for its symbol. -/
theorem edited_rules_grow_alike_shadowed :
    Relation.EqvGen Edit [⟨'F', ['F', 'X']⟩, ⟨'X', []⟩, ⟨'F', ['X']⟩]
      [⟨'X', []⟩, ⟨'F', ['F', 'X']⟩] ∧
    expandWithin ⟨['F'], [⟨'F', ['F', 'X']⟩, ⟨'X', []⟩, ⟨'F', ['X']⟩]⟩ 3 ⟨5, 1⟩ =
      expandWithin ⟨['F'], [⟨'X', []⟩, ⟨'F', ['F', 'X']⟩]⟩ 3 ⟨5, 1⟩ ∧
    expandWithin ⟨['F'], [⟨'X', []⟩, ⟨'F', ['F', 'X']⟩]⟩ 3 ⟨5, 1⟩ =
      .error (.tooManySymbols 1 2 1) := by
  have hedits : Relation.EqvGen Edit [⟨'F', ['F', 'X']⟩, ⟨'X', []⟩, ⟨'F', ['X']⟩]
      [⟨'X', []⟩, ⟨'F', ['F', 'X']⟩] := by
    refine .trans _ [⟨'X', []⟩, ⟨'F', ['F', 'X']⟩, ⟨'F', ['X']⟩] _ (.rel _ _ ?_) (.rel _ _ ?_)
    · exact .reorder ⟨Equiv.swap (0 : Fin 3) 1, by decide, by decide⟩
    · exact .remove [⟨'X', []⟩, ⟨'F', ['F', 'X']⟩] [] (.tail _ (.head _)) rfl
  exact ⟨hedits, (edited_rules_grow_alike hedits).2.2.1 _ _ _, rfl⟩

end PlantGrammar.RuleSet
