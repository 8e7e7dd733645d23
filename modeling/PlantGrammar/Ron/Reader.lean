import PlantGrammar.Ron.Fault

/-!
# Reading a text piece by piece

A `Reader` takes a value off the front of a text. Between the pieces there may
be blanks and comments, which `blank` passes over, and `items` reads what stands
between commas. How deep values may nest is bounded: a reader that goes one step
further inside is `inside` the depth that is left.
-/

namespace PlantGrammar.Ron

/-- Takes a value off the front of a text. -/
abbrev Reader (α : Type) := StateT (List Char) (Except Fault) α

/-- What a text may switch on at its head. -/
structure Dialect where
  /-- Records have to be headed by their names. -/
  explicitNames : Bool := false
  /-- A value alone stands for the optional value that holds it. -/
  implicitSome : Bool := false
  /-- Several values or named fields in an optional value need no parentheses of
  their own. -/
  bareContent : Bool := false
deriving DecidableEq, Repr

/-- The depth to which values may nest. -/
def maxDepth : Nat := 128

namespace Reader

variable {α σ : Type}

/-- The text breaks the rules of the notation. -/
def malformed : Reader α := throw .malformed

/-- The next character, which stays. -/
def peek? : Reader (Option Char) := fun cs => .ok (cs.head?, cs)

/-- Takes a character if it comes next. -/
def accept (c : Char) : Reader Bool := fun
  | d :: cs => if d = c then .ok (true, cs) else .ok (false, d :: cs)
  | [] => .ok (false, [])

/-- Takes a character that has to come next. -/
def expect (c : Char) : Reader Unit := fun
  | d :: cs => if d = c then .ok ((), cs) else .error .malformed
  | [] => .error .malformed

/-- What follows a text at the front of another. -/
def after? : List Char → List Char → Option (List Char)
  | [], rest => some rest
  | _ :: _, [] => none
  | c :: cs, d :: ds => if c = d then after? cs ds else none

/-- Takes a text that has to come next. -/
def expectText (text : String) : Reader Unit := fun cs =>
  match after? text.toList cs with
  | some rest => .ok ((), rest)
  | none => .error .malformed

/-- A reader that goes one step further inside, if that much depth is left. -/
def inside (r : Nat → Reader α) : Nat → Reader α
  | 0 => malformed
  | depth + 1 => r depth

/-! ## Blanks and comments -/

/-- The blanks of the notation. -/
def isBlank (c : Char) : Bool :=
  let n := c.toNat
  c = ' ' || c = '\t' || c = '\n' || c = '\r' || n = 0x0B || n = 0x0C || n = 0x85 ||
    n = 0x200E || n = 0x200F || n = 0x2028 || n = 0x2029

/-- Where in a stretch of blanks and comments a reader is. -/
inductive BlankState where
  | between
  | line
  /-- Inside a comment that is open in as many comments. -/
  | block (outer : Nat)

/-- Passes over blanks, comments to the end of a line, and comments in brackets,
which nest. -/
def skipBlank : BlankState → List Char → Except Fault (List Char)
  | .between, [] => .ok []
  | .between, '/' :: '/' :: cs => skipBlank .line cs
  | .between, '/' :: '*' :: cs => skipBlank (.block 0) cs
  | .between, c :: cs =>
    if isBlank c then skipBlank .between cs
    else if c = '/' then .error .malformed
    else .ok (c :: cs)
  | .line, [] => .ok []
  | .line, c :: cs => if c = '\n' then skipBlank .between cs else skipBlank .line cs
  | .block _, [] => .error .malformed
  | .block outer, '/' :: '*' :: cs => skipBlank (.block (outer + 1)) cs
  | .block 0, '*' :: '/' :: cs => skipBlank .between cs
  | .block (outer + 1), '*' :: '/' :: cs => skipBlank (.block outer) cs
  | .block outer, _ :: cs => skipBlank (.block outer) cs

/-- Passes over blanks and comments. -/
def blank : Reader Unit := fun cs => (skipBlank .between cs).map ((), ·)

/-! ## Items between commas -/

/-- Takes a comma with what is blank around it, and tells whether there was one. -/
def comma : Reader Bool := do
  blank
  let found ← accept ','
  blank
  return found

/-- Reads items up to a closing character, which stays. An item may follow the
beginning or a comma. Every item takes a character at least, so a text that is
as long as the one before the reader is fuel enough. -/
def itemsWith (close : Char) (item : σ → Reader σ) :
    (fuel : List Char) → (mayFollow : Bool) → σ → Reader σ
  | [], _, _ => malformed
  | _ :: fuel, mayFollow, state => do
    blank
    if (← peek?) = some close then return state
    else if mayFollow then
      let state ← item state
      let found ← comma
      itemsWith close item fuel found state
    else malformed

/-- Reads items up to a closing character, which stays; `item` adds one to what
is read so far. -/
def items (close : Char) (item : σ → Reader σ) (state : σ) : Reader σ := fun cs =>
  itemsWith close item cs true state cs

end Reader

end PlantGrammar.Ron
