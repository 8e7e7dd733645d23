import Mathlib.Logic.Relation
import PlantGrammar.Proofs.Turtle.Pieces
import PlantGrammar.Proofs.Turtle.Table

/-!
# Symbols that are passed over

Five symbols mean something to a turtle; all others are there for the grammar. Words
that have the same meaning symbols in the same order (`heeded`) are drawn alike, from
any turtle, and the same brackets are noted, each at the position that it has in its own
word.
-/

namespace PlantGrammar

/-- The symbol means something to a turtle. -/
def heeds (symbol : Char) : Bool := symbol ∈ ['F', '+', '-', '[', ']']

/-- The symbols of a word that mean something to a turtle. -/
def heeded (word : Word) : Word := word.filter heeds

/-- How many symbols that mean something stand before position `i`. -/
def heededBefore (word : Word) (i : Nat) : Nat := (heeded (word.take i)).length

/-- The second word is the first one with a symbol put in that means nothing. -/
def Pads (word padded : Word) : Prop :=
  ∃ front symbol back, heeds symbol = false ∧ word = front ++ back ∧
    padded = front ++ symbol :: back

@[simp] theorem heeded_nil : heeded [] = [] := rfl

@[simp] theorem heeded_append (u v : Word) : heeded (u ++ v) = heeded u ++ heeded v :=
  List.filter_append u v

theorem heeded_cons_of_heeds {symbol : Char} (h : heeds symbol = true) (word : Word) :
    heeded (symbol :: word) = symbol :: heeded word := List.filter_cons_of_pos h

theorem heeded_cons_of_not_heeds {symbol : Char} (h : heeds symbol = false) (word : Word) :
    heeded (symbol :: word) = heeded word := List.filter_cons_of_neg (by simp [h])

theorem heeded_of_pads {word padded : Word} (h : Pads word padded) :
    heeded word = heeded padded := by
  obtain ⟨front, symbol, back, hsymbol, rfl, rfl⟩ := h
  rw [heeded_append, heeded_append, heeded_cons_of_not_heeds hsymbol]

/-- Putting in and taking out what means nothing leaves what means something. -/
theorem heeded_of_eqvGen {word other : Word} (h : Relation.EqvGen Pads word other) :
    heeded word = heeded other := by
  induction h with
  | rel word padded hpads => exact heeded_of_pads hpads
  | refl word => rfl
  | symm word other _ ih => exact ih.symm
  | trans word middle other _ _ ih ih' => exact ih.trans ih'

/-! ## Brackets -/

theorem Bracket.ofSymbol_of_not_heeds {symbol : Char} (h : heeds symbol = false) :
    ofSymbol symbol = .plain := by
  refine ofSymbol_eq_plain ?_ ?_
  · rintro rfl
    cases h
  · rintro rfl
    cases h

theorem depth_marks_heeded (word : Word) :
    ∀ d : Nat, Bracket.depth d (marks (heeded word)) = Bracket.depth d (marks word) := by
  induction word with
  | nil => exact fun _ => rfl
  | cons symbol word ih =>
    intro d
    cases hsymbol : heeds symbol with
    | true => rw [heeded_cons_of_heeds hsymbol, marks_cons, marks_cons, Bracket.depth_cons, ih,
        Bracket.depth_cons]
    | false => rw [heeded_cons_of_not_heeds hsymbol, ih, marks_cons, Bracket.depth_cons,
        Bracket.ofSymbol_of_not_heeds hsymbol, Bracket.step]

/-- One more symbol is noted iff it closes a group and none is open. -/
theorem strays_marks_concat (d : Nat) (word : Word) (symbol : Char) :
    Bracket.strays d 0 (marks (word ++ [symbol])) = Bracket.strays d 0 (marks word) ++
      if Bracket.ofSymbol symbol = .closing ∧ Bracket.depth d (marks word) = 0
      then [word.length] else [] := by
  rw [marks_append, Bracket.strays_append, length_marks, Nat.zero_add, marks_cons, Bracket.strays]
  rfl

/-- Counted among the symbols that mean something, the brackets that are noted are those
of the word without the others. -/
theorem strays_heeded (d : Nat) (word : Word) :
    (Bracket.strays d 0 (marks word)).map (heededBefore word) =
      Bracket.strays d 0 (marks (heeded word)) := by
  induction word using List.reverseRecOn with
  | nil => rfl
  | append_singleton word symbol ih =>
    have hold : ∀ i ∈ Bracket.strays d 0 (marks word),
        heededBefore (word ++ [symbol]) i = heededBefore word i := by
      intro i hi
      have hlt : i < word.length := by
        rw [← unclosed_eq_strays] at hi
        exact List.mem_range.mp (List.mem_filter.mp hi).1
      rw [heededBefore, heededBefore, List.take_append_of_le_length (Nat.le_of_lt hlt)]
    have hnew : heededBefore (word ++ [symbol]) word.length = (heeded word).length := by
      rw [heededBefore, List.take_left]
    rw [strays_marks_concat, List.map_append, List.map_congr_left hold, ih, heeded_append]
    cases hsymbol : heeds symbol with
    | true =>
      rw [heeded_cons_of_heeds hsymbol, heeded_nil, strays_marks_concat, depth_marks_heeded]
      split
      · rw [List.map_singleton, hnew]
      · rfl
    | false =>
      rw [heeded_cons_of_not_heeds hsymbol, heeded_nil, List.append_nil,
        Bracket.ofSymbol_of_not_heeds hsymbol]
      exact List.append_nil _

namespace Turtle

theorem follow_of_not_heeds {symbol : Char} (h : heeds symbol = false) (t : Turtle) :
    t.follow symbol = t := by
  unfold follow
  split
  · cases h
  · cases h
  · cases h
  · cases h
  · cases h
  · rfl

/-- Walking a word is walking the symbols of it that mean something. -/
theorem Alike.walkFrom_heeded {word : Word} :
    ∀ {t u : Turtle} {position other : Nat}, Alike t u →
      Alike (t.walkFrom position word) (u.walkFrom other (heeded word)) := by
  induction word with
  | nil => exact fun h => h
  | cons symbol word ih =>
    intro t u position other h
    cases hsymbol : heeds symbol with
    | true =>
      rw [heeded_cons_of_heeds hsymbol]
      exact ih ((h.cursor _ _).follow symbol)
    | false =>
      rw [heeded_cons_of_not_heeds hsymbol, Turtle.walkFrom, follow_of_not_heeds hsymbol]
      exact ih (h.cursor position u.cursor)

theorem Alike.walk_of_heeded_eq {word other : Word} (h : heeded word = heeded other)
    (t : Turtle) : Alike (t.walk word) (t.walk other) := by
  have hword : Alike (t.walk word) (t.walkFrom 0 (heeded word)) := (Alike.refl t).walkFrom_heeded
  have hother : Alike (t.walk other) (t.walkFrom 0 (heeded other)) := (Alike.refl t).walkFrom_heeded
  rw [← h] at hother
  exact hword.trans hother.symm

/-- **A walk is a translation by a table, blind to all else**: whatever a turtle was asked
to do before, a walk adds what the table has for each symbol, in order, where a `]` goes
back iff it has a partner in the word or a pose is left for it; the brackets for which
neither holds are noted. Putting in or taking out symbols that are in no row of the
table changes neither the commands nor the pose nor the poses remembered, and the same
brackets are noted, which are told by how many symbols of the table stand before them. -/
theorem walk_translates (parameters : Parameters Float) (branchLength : Float)
    (calls : List Call) :
    let t := (start parameters branchLength).run calls
    (∀ word,
      (t.walk word).commands.toList = t.commands.toList ++
          (word.mapIdx fun i symbol =>
            response t.parameters t.pose.branchLength (Closes t.depth word i) symbol).flatten ∧
        (t.walk word).unbalanced.toList = t.unbalanced.toList ++ unclosed t.depth word) ∧
      ∀ word other, Relation.EqvGen Pads word other →
        (t.walk word).commands = (t.walk other).commands ∧
          (t.walk word).pose = (t.walk other).pose ∧
          (t.walk word).saved = (t.walk other).saved ∧
          (unclosed t.depth word).map (heededBefore word) =
            (unclosed t.depth other).map (heededBefore other) := by
  intro t
  have hsteady : Steady t.parameters t.pose.branchLength t := by
    have h := steady_run parameters branchLength calls
    rw [← h.parameters, ← h.pose] at h
    exact h
  refine ⟨fun word => ⟨hsteady.commands_walk word, t.unbalanced_walk word⟩,
    fun word other hpads => ?_⟩
  have hheeded := heeded_of_eqvGen hpads
  have halike := Alike.walk_of_heeded_eq hheeded t
  refine ⟨halike.commands, halike.pose, halike.saved, ?_⟩
  rw [unclosed_eq_strays, unclosed_eq_strays, strays_heeded, strays_heeded, hheeded]

end Turtle

end PlantGrammar
