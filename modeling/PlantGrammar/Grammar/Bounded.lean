import PlantGrammar.Failure
import PlantGrammar.Grammar.Basic

/-!
# Growing within limits

A few generations of a grammar can fill any memory. `RuleSet.expandWithin`
rewrites like `RuleSet.expand`, counts the symbols while it writes, and stops as
soon as a limit is passed. `RuleSet.grow` does the same and shrinks the length
of a branch once per generation.
-/

namespace PlantGrammar

/-- How far an expansion may go. -/
structure Limits where
  maxGenerations : UInt32
  maxSymbols : UInt64
deriving DecidableEq, Repr

namespace Limits

/-- The limits in force when none are chosen. -/
def standard : Limits := ⟨5, 4000000⟩

instance : Inhabited Limits := ⟨standard⟩

/-- No limits but those of the counters themselves. -/
def unbounded : Limits := ⟨4294967295, 18446744073709551615⟩

end Limits

/-- A grown word, with the length of its branches. -/
structure Growth where
  word : Word
  branchLength : Float
  generations : UInt32

namespace RuleSet

/-- One generation that stops once more than `limit` symbols are written, with
the count reached. `done` holds what is written so far, last symbol first, and
`count` its length. -/
def rewriteWithin (rules : List Rule) (limit : Nat) :
    (done : Word) → (count : Nat) → Word → Except Nat Word
  | done, _, [] => .ok done.reverse
  | done, count, symbol :: word =>
    let next := image rules symbol
    let count := count + next.length
    if limit < count then .error count
    else rewriteWithin rules limit (next.reverseAux done) count word

/-- Generation number `generation`, with a failure that names it. -/
def generationWithin (rules : List Rule) (limit generation : Nat) (word : Word) :
    Except Failure Word :=
  (rewriteWithin rules limit [] 0 word).mapError fun symbols =>
    .tooManySymbols generation symbols limit

/-- What has to hold before the first generation: as many generations as asked
for are allowed, and the start word fits. -/
def startWithin (start : Word) (generations : Nat) (limits : Limits) : Except Failure Unit :=
  if limits.maxGenerations.toNat < generations then
    .error (.tooManyGenerations generations limits.maxGenerations.toNat)
  else if limits.maxSymbols.toNat < start.length then
    .error (.tooManySymbols 0 start.length limits.maxSymbols.toNat)
  else .ok ()

/-- `remaining` further generations, the first of which is number `generation`. -/
def iterateWithin (rules : List Rule) (limit : Nat) :
    (generation remaining : Nat) → Word → Except Failure Word
  | _, 0, word => .ok word
  | generation, remaining + 1, word => do
    let word ← generationWithin rules limit generation word
    iterateWithin rules limit (generation + 1) remaining word

/-- The start word after a number of generations, within limits. -/
def expandWithin (g : RuleSet) (generations : UInt32) (limits : Limits) :
    Except Failure Word := do
  startWithin g.start generations.toNat limits
  iterateWithin g.rules limits.maxSymbols.toNat 1 generations.toNat g.start

/-- `remaining` further generations that shrink a length by `falloff` each. -/
def growWithin (rules : List Rule) (limit : Nat) (falloff : Float) :
    (generation remaining : Nat) → Word → Float → Except Failure (Word × Float)
  | _, 0, word, length => .ok (word, length)
  | generation, remaining + 1, word, length => do
    let word ← generationWithin rules limit generation word
    growWithin rules limit falloff (generation + 1) remaining word (length * falloff)

/-- Grows the start word within limits. The branch length shrinks once per
generation, however deep a branch is nested. -/
def grow (g : RuleSet) (generations : UInt32) (branchLength falloff : Float)
    (limits : Limits) : Except Failure Growth := do
  startWithin g.start generations.toNat limits
  let (word, length) ← growWithin g.rules limits.maxSymbols.toNat falloff 1
    generations.toNat g.start branchLength
  return ⟨word, length, generations⟩

end RuleSet

end PlantGrammar
