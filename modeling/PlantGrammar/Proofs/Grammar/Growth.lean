import Mathlib.Logic.Function.Iterate
import PlantGrammar.Grammar.Bounded
import PlantGrammar.Proofs.Outcome

/-!
# Growing is expanding, with a length beside it

`RuleSet.grow` runs the generations of `RuleSet.expandWithin` in a loop of its own,
which multiplies a length in each of them. The two loops take the same generations
with the same numbers, so they fail together, with the same failure, and a length
never decides whether they do. Where they succeed the words are equal, and how
often the length was multiplied depends on the count of generations alone.
-/

namespace PlantGrammar.RuleSet

/-- A run that shrinks a length is the run without one, with a factor for each of
its generations. -/
theorem growWithin_eq_map {rules : List Rule} {limit remaining : Nat} {falloff : Float} :
    ∀ {generation : Nat} {word : Word} {length : Float},
      growWithin rules limit falloff generation remaining word length =
        (iterateWithin rules limit generation remaining word).map fun out =>
          (out, (· * falloff)^[remaining] length) := by
  induction remaining with
  | zero =>
    intro generation word length
    rfl
  | succ remaining ih =>
    intro generation word length
    rw [growWithin, iterateWithin]
    cases hnext : generationWithin rules limit generation word with
    | error failure => rfl
    | ok next => exact ih

/-- Growth is expansion with the length that its generations leave. -/
theorem grow_eq_map (g : RuleSet) (generations : UInt32) (branchLength falloff : Float)
    (limits : Limits) :
    g.grow generations branchLength falloff limits =
      (g.expandWithin generations limits).map fun word =>
        ⟨word, (· * falloff)^[generations.toNat] branchLength, generations⟩ := by
  rw [grow, expandWithin]
  cases hstart : startWithin g.start generations.toNat limits with
  | error failure => rfl
  | ok _ =>
    change (growWithin _ _ _ _ _ _ _ >>= _) = Except.map _ (iterateWithin _ _ _ _ _)
    rw [growWithin_eq_map]
    cases hrun : iterateWithin g.rules limits.maxSymbols.toNat 1 generations.toNat g.start with
    | error failure => rfl
    | ok word => rfl

/-- **Growing and expanding never drift apart**: they fail for the same causes, down
to the numbers these hold, and where expanding gives a word, growing gives that word
for the generations asked for, with the length multiplied by the falloff that many
times, one after the other. -/
theorem grow_agrees_expandWithin (g : RuleSet) (generations : UInt32)
    (branchLength falloff : Float) (limits : Limits) :
    (∀ failure, g.grow generations branchLength falloff limits = .error failure ↔
      g.expandWithin generations limits = .error failure) ∧
    ∀ word, g.expandWithin generations limits = .ok word →
      g.grow generations branchLength falloff limits =
        .ok ⟨word, (· * falloff)^[generations.toNat] branchLength, generations⟩ := by
  rw [grow_eq_map]
  refine ⟨fun failure => map_eq_error_iff, fun word hword => ?_⟩
  rw [hword]
  rfl

end PlantGrammar.RuleSet
