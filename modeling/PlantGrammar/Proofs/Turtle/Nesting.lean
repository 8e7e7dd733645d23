import PlantGrammar.Proofs.Grammar.Nesting
import PlantGrammar.Proofs.Turtle.Calls

/-!
# Brackets of a word and the poses of a turtle

A turtle remembers as many poses as there are brackets open behind it, and notes
the position of each `]` that finds none. So a word that never closes more than
it opens is read without a complaint, and a grammar of such words grows nothing
else: reading its words strictly or leniently makes no difference.
-/

namespace PlantGrammar

namespace Turtle

theorem depth_follow (t : Turtle) (symbol : Char) :
    (t.follow symbol).depth = Bracket.step t.depth (Bracket.ofSymbol symbol) := by
  unfold follow
  split
  · simp [depth, forward, Bracket.ofSymbol, Bracket.step]
  · simp [depth, right, Bracket.ofSymbol, Bracket.step]
  · simp [depth, left, right, Bracket.ofSymbol, Bracket.step]
  · simp [depth, push, Bracket.ofSymbol, Bracket.step]
  · cases hsaved : t.saved with
    | nil => simp [depth, pop, leaf, hsaved, Bracket.ofSymbol, Bracket.step]
    | cons pose rest => simp [depth, pop, leaf, hsaved, Bracket.ofSymbol, Bracket.step]
  · next hopen hclose => rw [Bracket.ofSymbol_eq_plain hopen hclose, Bracket.step]

/-- A symbol is noted iff it closes a bracket and none is open. -/
theorem unbalanced_follow (t : Turtle) (symbol : Char) :
    (t.follow symbol).unbalanced.toList = t.unbalanced.toList ++
      if Bracket.ofSymbol symbol = .closing ∧ t.depth = 0 then [t.cursor] else [] := by
  unfold follow
  split
  · simp [forward, Bracket.ofSymbol]
  · simp [right, Bracket.ofSymbol]
  · simp [left, right, Bracket.ofSymbol]
  · simp [push, Bracket.ofSymbol]
  · cases hsaved : t.saved with
    | nil => simp [depth, pop, leaf, hsaved, Bracket.ofSymbol, record]
    | cons pose rest => simp [depth, pop, leaf, hsaved, Bracket.ofSymbol]
  · next hopen hclose => simp [Bracket.ofSymbol_eq_plain hopen hclose]

/-- A walk opens and closes poses as its word opens and closes brackets. -/
theorem depth_walkFrom {word : Word} :
    ∀ (t : Turtle) (position : Nat),
      (t.walkFrom position word).depth = Bracket.depth t.depth (marks word) := by
  induction word with
  | nil => exact fun _ _ => rfl
  | cons symbol word ih =>
    intro t position
    rw [walkFrom, ih, depth_follow]
    rfl

/-- A walk notes the positions of the brackets that close nothing. -/
theorem unbalanced_walkFrom {word : Word} :
    ∀ (t : Turtle) (position : Nat),
      (t.walkFrom position word).unbalanced.toList =
        t.unbalanced.toList ++ Bracket.strays t.depth position (marks word) := by
  induction word with
  | nil => exact fun t _ => (List.append_nil _).symm
  | cons symbol word ih =>
    intro t position
    rw [walkFrom, ih, unbalanced_follow, depth_follow, marks_cons, Bracket.strays]
    by_cases hstray : Bracket.ofSymbol symbol = .closing ∧ t.depth = 0
    · obtain ⟨hmark, hdepth⟩ := hstray
      have hdepth' : depth { t with cursor := position } = 0 := hdepth
      simp [hmark, hdepth, hdepth', Bracket.step]
    · have hstray' : ¬ (Bracket.ofSymbol symbol = .closing ∧
          depth { t with cursor := position } = 0) := hstray
      rw [if_neg hstray, if_neg hstray', List.append_nil]
      rfl

end Turtle

/-- Reading strictly stops at the first bracket that closes nothing, and is lenient
reading where there is none. -/
theorem interpretStrict_eq (word : Word) (parameters : Parameters Float)
    (branchLength : Float) :
    interpretStrict word parameters branchLength =
      match (Bracket.strays 0 0 (marks word)).head? with
      | some position => .error (.unbalancedBracket position)
      | none => .ok (interpret word parameters branchLength) := by
  have hnoted : ((Turtle.start parameters branchLength).walk word).unbalanced.toList
      = Bracket.strays 0 0 (marks word) := Turtle.unbalanced_walkFrom _ 0
  rw [interpretStrict, ← hnoted, List.head?_eq_getElem?, Array.getElem?_toList]
  rfl

theorem interpretStrict_of_nests {word : Word} (h : Nests word)
    (parameters : Parameters Float) (branchLength : Float) :
    interpretStrict word parameters branchLength =
      .ok (interpret word parameters branchLength) := by
  have hnone : Bracket.strays 0 0 (marks word) = [] :=
    Bracket.strays_eq_nil_iff.mpr (nests_iff.mp h)
  rw [interpretStrict_eq, hnone]
  rfl

/-- A fresh turtle behind a word that nests has as many poses left as the word has
brackets open. -/
theorem Turtle.depth_walk_of_nests {word : Word} (h : Nests word)
    (parameters : Parameters Float) (branchLength : Float) :
    ((start parameters branchLength).walk word).depth + word.count ']' = word.count '[' := by
  have hdepth : ((start parameters branchLength).walk word).depth
      = Bracket.depth 0 (marks word) := depth_walkFrom _ 0
  have hcount := (nests_iff.mp h).depth_add_count
  have hmarks := count_marks word
  omega

/-- **Growing keeps words readable**: where no word of a grammar closes more than it
opens and no rule rewrites a bracket, every grown word is read strictly as it is
read leniently, and if the words also close all they open, it leaves no pose
behind. The presets of the catalogue meet both conditions. -/
theorem interpretStrict_expand :
    (∀ g : RuleSet, g.AllNest →
      ∀ (generations : Nat) (parameters : Parameters Float) (branchLength : Float),
        interpretStrict (g.expand generations) parameters branchLength =
            .ok (interpret (g.expand generations) parameters branchLength) ∧
          (g.AllBalance →
            ((Turtle.start parameters branchLength).walk (g.expand generations)).depth = 0)) ∧
    ∀ preset ∈ Preset.all, preset.rules.AllNest ∧ preset.rules.AllBalance ∧
      ∀ (generations : Nat) (parameters : Parameters Float) (branchLength : Float),
        interpretStrict (preset.rules.expand generations) parameters branchLength =
          .ok (interpret (preset.rules.expand generations) parameters branchLength) := by
  constructor
  · intro g hnest generations parameters branchLength
    refine ⟨interpretStrict_of_nests (hnest.nests_expand generations) _ _, ?_⟩
    intro hbalance
    have hdepth := Turtle.depth_walk_of_nests (hnest.nests_expand generations)
      parameters branchLength
    have heven : (g.expand generations).count '[' = (g.expand generations).count ']' :=
      hbalance.balances_expand hnest generations
    omega
  · intro preset hpreset
    obtain ⟨hnest, hbalance⟩ := Preset.allNest_allBalance preset hpreset
    refine ⟨hnest, hbalance, fun generations parameters branchLength => ?_⟩
    exact interpretStrict_of_nests (hnest.nests_expand generations) _ _

end PlantGrammar
