/-!
# Words and rewriting rules

A word is a list of symbols. A rule set rewrites a word by replacing all of its
symbols at once, each by the successor of the first rule written for it; a
symbol without a rule stands for itself. `RuleSet.rewrite` is one generation and
`RuleSet.expand` any number of them.
-/

namespace PlantGrammar

/-- A word of a grammar. Every character is a symbol. -/
abbrev Word := List Char

/-- One rewriting rule. The successor may be empty, which erases the symbol. -/
structure Rule where
  predecessor : Char
  successor : Word
deriving DecidableEq, Repr, Inhabited

/-- A start word with an ordered list of rules. -/
structure RuleSet where
  start : Word
  rules : List Rule
deriving DecidableEq, Repr, Inhabited

namespace RuleSet

/-- The first rule written for a symbol. -/
def rule? (rules : List Rule) (symbol : Char) : Option Rule :=
  rules.find? fun rule => rule.predecessor == symbol

/-- What a symbol becomes in one generation. -/
def image (rules : List Rule) (symbol : Char) : Word :=
  match rule? rules symbol with
  | some rule => rule.successor
  | none => [symbol]

/-- One generation: all symbols are replaced at once. -/
def rewrite (rules : List Rule) (word : Word) : Word := word.flatMap (image rules)

/-- The word after a number of generations. -/
def iterate (rules : List Rule) : Nat → Word → Word
  | 0, word => word
  | n + 1, word => iterate rules n (rewrite rules word)

/-- The start word after a number of generations. -/
def expand (g : RuleSet) (generations : Nat) : Word := iterate g.rules generations g.start

@[simp] theorem rewrite_nil (rules : List Rule) : rewrite rules [] = [] := rfl

@[simp] theorem rewrite_cons (rules : List Rule) (symbol : Char) (word : Word) :
    rewrite rules (symbol :: word) = image rules symbol ++ rewrite rules word := by
  simp [rewrite]

@[simp] theorem rewrite_append (rules : List Rule) (u v : Word) :
    rewrite rules (u ++ v) = rewrite rules u ++ rewrite rules v := by
  simp [rewrite]

theorem iterate_succ (rules : List Rule) (n : Nat) (word : Word) :
    iterate rules (n + 1) word = rewrite rules (iterate rules n word) := by
  induction n generalizing word with
  | zero => rfl
  | succ n ih => rw [iterate, ih, iterate]

@[simp] theorem expand_zero (g : RuleSet) : g.expand 0 = g.start := rfl

end RuleSet

end PlantGrammar
