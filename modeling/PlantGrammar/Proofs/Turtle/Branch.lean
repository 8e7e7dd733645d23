import PlantGrammar.Proofs.Turtle.Pieces
import PlantGrammar.Proofs.Turtle.Table

/-!
# A branch leaves no trace

A word that nests never goes back further than it has come: the poses remembered before
it stay beneath (`Turtle.onto`), out of its sight. If it also closes all it opens, the
pose in front of it lies on top again behind it, and a turtle that goes back to it is
where it was. What the branch records is the table of its word, in which every `]` has
something to close.
-/

namespace PlantGrammar.Turtle

/-! ## Poses beneath -/

/-- The turtle with further poses beneath those that it remembers. -/
def onto (t : Turtle) (base : List Pose) : Turtle := { t with saved := t.saved ++ base }

variable {t : Turtle} {base : List Pose}

theorem pop_onto (h : 0 < t.depth) : (t.onto base).pop = t.pop.onto base := by
  cases hsaved : t.saved with
  | nil =>
    rw [depth, hsaved] at h
    cases h
  | cons pose rest =>
    have honto : (t.onto base).saved = pose :: (rest ++ base) := by
      rw [onto, hsaved]
      rfl
    rw [pop_of_cons hsaved, pop_of_cons honto]
    rfl

/-- A symbol does not reach beneath, unless it closes a group and none is open. -/
theorem follow_onto {symbol : Char} (h : Bracket.ofSymbol symbol = .closing → 0 < t.depth) :
    (t.onto base).follow symbol = (t.follow symbol).onto base := by
  unfold follow
  split
  · rfl
  · rfl
  · rfl
  · rfl
  · exact pop_onto (t := t.leaf) (h rfl)
  · rfl

/-- A word that closes no more than is open and it opens does not reach beneath. -/
theorem walkFrom_onto {word : Word} :
    ∀ {t : Turtle} {position : Nat}, Bracket.ClosesWithin t.depth (marks word) →
      (t.onto base).walkFrom position word = (t.walkFrom position word).onto base := by
  induction word with
  | nil => exact fun _ => rfl
  | cons symbol word ih =>
    intro t position h
    obtain ⟨hclose, hrest⟩ := Bracket.closesWithin_cons.mp h
    have hhere : Bracket.ClosesWithin ({ t with cursor := position }.follow symbol).depth
        (marks word) := by
      rw [depth_follow]
      exact hrest
    rw [walkFrom, walkFrom, ← ih hhere]
    exact congrArg (walkFrom · _ word) (follow_onto (t := { t with cursor := position }) hclose)

/-! ## Words that nest -/

/-- Where nothing is closed in vain the table is read without looking at what is open. -/
theorem flatten_response_of_closesWithin {p : Parameters Float} {length : Float} {word : Word} :
    ∀ {d : Nat}, Bracket.ClosesWithin d (marks word) →
      (word.mapIdx fun i symbol =>
          response p length (0 < Bracket.depth d ((marks word).take i)) symbol).flatten =
        word.flatMap (response p length true) := by
  induction word with
  | nil => exact fun _ => rfl
  | cons symbol word ih =>
    intro d h
    obtain ⟨hclose, hrest⟩ := Bracket.closesWithin_cons.mp h
    have hsymbol : response p length (0 < d) symbol = response p length true symbol :=
      response_congr fun heq => decide_eq_true (hclose (Bracket.ofSymbol_eq_closing_iff.mpr heq))
    rw [List.mapIdx_cons, List.flatten_cons, List.flatMap_cons, ← ih hrest, ← hsymbol]
    rfl

/-- The turtle without the poses that it remembers. -/
def bare (t : Turtle) : Turtle := { t with saved := [] }

/-- A turtle that remembers nothing has one branch length only. -/
theorem steady_bare (t : Turtle) : Steady t.parameters t.pose.branchLength t.bare :=
  ⟨rfl, rfl, nofun⟩

section

variable {word : Word} (t : Turtle) (position : Nat)

theorem walkFrom_eq_onto (hnest : Nests word) :
    t.walkFrom position word = (t.bare.walkFrom position word).onto t.saved :=
  walkFrom_onto (t := t.bare) (nests_iff.mp hnest)

theorem parameters_walkFrom_of_nests (hnest : Nests word) :
    (t.walkFrom position word).parameters = t.parameters := by
  rw [walkFrom_eq_onto t position hnest]
  exact ((Steady.kept _ _).walkFrom _ position t.steady_bare).parameters

/-- A word that nests is translated by the table, whatever is remembered before it. -/
theorem commands_walkFrom_of_nests (hnest : Nests word) :
    (t.walkFrom position word).commands.toList = t.commands.toList ++
      word.flatMap (response t.parameters t.pose.branchLength true) := by
  have hcloses : Bracket.ClosesWithin t.bare.depth (marks word) := nests_iff.mp hnest
  rw [walkFrom_eq_onto t position hnest, ← flatten_response_of_closesWithin hcloses]
  exact t.steady_bare.commands_walkFrom

theorem unbalanced_walkFrom_of_nests (hnest : Nests word) :
    (t.walkFrom position word).unbalanced = t.unbalanced := by
  have hcloses := (nests_iff.mp hnest).mono (Nat.zero_le t.depth)
  rw [← Array.toList_inj, unbalanced_walkFrom, Bracket.strays_eq_nil_iff.mpr hcloses,
    List.append_nil]

/-- Behind a word that also closes all it opens the same poses are remembered. -/
theorem saved_walkFrom_of_balances (hnest : Nests word) (hbalance : Balances word) :
    (t.walkFrom position word).saved = t.saved := by
  have hbalanced := balanced_marks_iff.mpr ⟨hnest, hbalance⟩
  have hdepth : (t.bare.walkFrom position word).depth = 0 := by
    rw [depth_walkFrom, hbalanced.depth_eq]
    rfl
  rw [walkFrom_eq_onto t position hnest, onto, List.length_eq_zero_iff.mp hdepth]
  rfl

end

/-- **A branch leaves no trace**: a word in brackets that itself nests and balances leaves
a turtle at the pose where it found it, with the poses that it remembered and the brackets
that it had noted. It only adds commands, from `push` to `leaf` and `pop`, and which ones
depends on the word, the parameters and the branch length alone. A branch that is begun
and ended by single calls leaves no trace either. -/
theorem walk_branch (t : Turtle) (word : Word) (hnest : Nests word) (hbalance : Balances word) :
    let branch := t.walk ('[' :: (word ++ [']']))
    let called := (t.push.walk word).pop
    (branch.pose = t.pose ∧ branch.saved = t.saved ∧ branch.unbalanced = t.unbalanced ∧
        branch.commands.toList = t.commands.toList ++
          .push :: (word.flatMap (response t.parameters t.pose.branchLength true) ++
            [.leaf t.parameters.leafWidth t.parameters.leafLength t.parameters.leafColor
              t.parameters.leafAlpha, .pop])) ∧
      called.pose = t.pose ∧ called.saved = t.saved ∧ called.unbalanced = t.unbalanced := by
  intro branch called
  constructor
  · -- the turtle in front of the closing bracket, and the pose that it goes back to
    let inside : Turtle :=
      { { t with cursor := 0 }.push.walkFrom 1 word with cursor := 1 + word.length }
    have hbranch : branch = inside.leaf.pop := by
      show { t with cursor := 0 }.push.walkFrom 1 (word ++ [']']) = _
      rw [walkFrom_append]
      rfl
    have hsaved : inside.leaf.saved = t.pose :: t.saved :=
      saved_walkFrom_of_balances _ _ hnest hbalance
    have hparameters : inside.parameters = t.parameters :=
      parameters_walkFrom_of_nests _ _ hnest
    have hcommands : inside.commands.toList = t.commands.toList ++ [.push] ++
        word.flatMap (response t.parameters t.pose.branchLength true) := by
      rw [← record_commands]
      exact commands_walkFrom_of_nests _ _ hnest
    rw [hbranch, pop_of_cons hsaved]
    refine ⟨rfl, rfl, unbalanced_walkFrom_of_nests _ _ hnest, ?_⟩
    rw [record_commands, leaf, record_commands, hcommands, hparameters]
    simp
  · have hsaved : (t.push.walk word).saved = t.pose :: t.saved :=
      saved_walkFrom_of_balances _ _ hnest hbalance
    have hcalled : called = _ := pop_of_cons hsaved
    rw [hcalled]
    exact ⟨rfl, rfl, unbalanced_walkFrom_of_nests _ _ hnest⟩

/-- A branch with twigs of its own, behind two brackets that closed nothing and on top of
a pose that is still remembered. -/
theorem walk_branch_twigs :
    let t := (start .standard 10).run [.pop, .walk "F[+]]F[-".toList]
    let word := "F[+F]-[]X".toList
    t.depth = 1 ∧ t.unbalanced = #[0, 4] ∧ Nests word ∧ Balances word ∧
      let branch := t.walk ('[' :: (word ++ [']']))
      let called := (t.push.walk word).pop
      (branch.pose = t.pose ∧ branch.saved = t.saved ∧ branch.unbalanced = t.unbalanced ∧
          branch.commands.toList = t.commands.toList ++
            .push :: (word.flatMap (response t.parameters t.pose.branchLength true) ++
              [.leaf t.parameters.leafWidth t.parameters.leafLength t.parameters.leafColor
                t.parameters.leafAlpha, .pop])) ∧
        called.pose = t.pose ∧ called.saved = t.saved ∧ called.unbalanced = t.unbalanced :=
  ⟨rfl, rfl, by decide, by decide, walk_branch _ _ (by decide) (by decide)⟩

end PlantGrammar.Turtle
