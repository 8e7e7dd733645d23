import PlantGrammar.Ron.Number
import PlantGrammar.Ron.Quoted

/-!
# Values of any kind

A field that a record does not know may hold any value. `Reader.value` passes
over it: it takes as much of the text as the value extends, and fails where there
is none.
-/

namespace PlantGrammar.Ron

namespace Reader

/-- Fails where no reader is left to go further inside with. -/
def orTooDeep (r : Option (Reader Unit)) : Reader Unit := r.getD malformed

/-- Passes over a list of items up to a closing character, which stays. Going
inside the list takes a step, whether or not it has items. -/
def listed {α : Type} (close : Char) (visit : Option α) (item : Reader Unit) : Reader Unit :=
  match visit with
  | none => malformed
  | some _ => do
    items close (fun _ => item) ()
    blank

/-- Passes over a list of items, behind its opening bracket. -/
def enclosed {α : Type} (close : Char) (visit : Option α) (item : Reader Unit) :
    Reader Unit := do
  listed close visit item
  expect close

/-- A key, a colon and a value. -/
def entry (key value : Reader Unit) : Reader Unit := do
  key
  blank
  expect ':'
  blank
  value

/-- A name, a colon and a value. -/
def namedEntry (item : Option (Reader Unit)) : Reader Unit :=
  entry (orTooDeep (item.map fun _ => do let _ ← identifier)) (orTooDeep item)

/-! ## What stands in parentheses -/

/-- Whether the fields behind an opening parenthesis are named: the first item is
a name that a colon follows. -/
def namesFields : Reader Bool := fun cs => do
  let ((), behind) ← blank cs
  match identifier behind with
  | .ok (_, rest) =>
    let ((), rest) ← blank rest
    return (rest.head? = some ':', cs)
  | .error _ => return (false, cs)

/-- Passes over what stands in parentheses, behind the opening one: named fields
or values. -/
def parenthesised {α : Type} (visit : Option α) (item : Option (Reader Unit)) :
    Reader Unit := do
  if ← namesFields then enclosed ')' visit (namedEntry item)
  else enclosed ')' visit (orTooDeep item)

/-! ## What an optional value holds -/

/-- How the content of an optional value is laid out. -/
inductive Layout where
  /-- Fields with names. -/
  | named
  /-- Several values between commas. -/
  | several
  /-- One value. -/
  | single
deriving DecidableEq, Repr

/-- What follows a piece of a text, if one begins here; a string without an end
stops the scan. -/
def behind {α : Type} (piece : Reader α) (cs : List Char) : Except Fault (List Char) :=
  match piece cs with
  | .ok (_, rest) => .ok rest
  | .error .unclosed => .error .unclosed
  | .error _ => .ok cs

/-- The layout that a comma tells, from what follows it: a single value may end
with one. -/
def layoutBehindComma (cs : List Char) : Except Fault Layout := do
  let rest ← skipBlank .between cs
  return if rest.head? = some ')' then .single else .several

/-- Looks for a comma before the content ends. Brackets, of which `nested` are
open, hide the commas between them; comments, characters and strings hide all
they hold, except that a comment right behind one of the latter counts as text.
A text as long as the one to scan is fuel enough. -/
def scanLayout : (fuel : List Char) → (nested : Nat) → List Char → Except Fault Layout
  | [], _, _ => .error .malformed
  | _ :: fuel, nested, cs => do
    let cs ← skipBlank .between cs
    match ← behind byteString (← behind string (← behind char cs)), nested with
    | [], _ => .error .malformed
    | '(' :: cs, nested | '[' :: cs, nested | '\x7b' :: cs, nested =>
      scanLayout fuel (nested + 1) cs
    | ')' :: _, 0 | ']' :: _, 0 | '\x7d' :: _, 0 => return .single
    | ')' :: cs, nested + 1 | ']' :: cs, nested + 1 | '\x7d' :: cs, nested + 1 =>
      scanLayout fuel nested cs
    | ',' :: cs, 0 => layoutBehindComma cs
    | _ :: cs, nested => scanLayout fuel nested cs

/-- How the content of an optional value is laid out. What follows a name at its
beginning may tell; otherwise the content is scanned. -/
def layout (cs : List Char) : Except Fault Layout := do
  let cs ← skipBlank .between cs
  match identifier cs with
  | .error _ => scanLayout cs 0 cs
  | .ok (_, rest) => do
    match ← skipBlank .between rest with
    | ':' :: _ => return .named
    | ',' :: rest => layoutBehindComma rest
    | ')' :: _ => return .single
    | rest => scanLayout rest 0 rest

/-- Passes over an optional value, behind its word. `visit` reads the value that
it holds and is told whether parentheses enclose that value. -/
def optional (d : Dialect) (visit : Option (Bool → Reader Unit)) : Reader Unit := do
  blank
  if ← accept '(' then
    blank
    orTooDeep (visit.map fun r => r true)
    let _ ← comma
    expect ')'
  else if d.implicitSome then orTooDeep (visit.map fun r => r false)
  else malformed

/-! ## Values -/

/-- The words that are values by themselves. -/
def valueWords : List String :=
  ["true", "false", "None", "inf", "inff32", "inff64", "NaN", "NaNf32", "NaNf64"]

/-- Passes over a value. `visit` reads a value one step further inside and
`item` one two steps further inside, as long as there is depth for them. -/
def valueWith (d : Dialect) (visit : Option (Bool → Reader Unit))
    (item : Option (Reader Unit)) : Reader Unit := fun cs =>
  match valueWords.findSome? (keyword? · cs), keyword? "Some" cs, after? ['(', ')'] cs with
  | some rest, _, _ => .ok ((), rest)
  | none, some rest, _ => optional d visit rest
  | none, none, some rest => .ok ((), rest)
  | none, none, none =>
    match identifier cs with
    | .ok (_, rest) => do
      let ((), rest) ← blank rest
      match rest with
      | '(' :: rest => parenthesised visit item rest
      | _ => .ok ((), rest)
    | .error _ =>
      match cs with
      | '(' :: rest => parenthesised visit item rest
      | '[' :: rest => enclosed ']' visit (orTooDeep item) rest
      | '\x7b' :: rest =>
        enclosed '\x7d' visit (entry (orTooDeep item) (orTooDeep item)) rest
      | '"' :: _ | 'r' :: _ => (string cs).map fun r => ((), r.2)
      | 'b' :: '\'' :: _ => byte cs
      | 'b' :: _ => byteString cs
      | '\'' :: _ => (char cs).map fun r => ((), r.2)
      | c :: _ =>
        if c.isDigit || c = '+' || c = '-' || c = '.' then anyNumber cs else .error .malformed
      | [] => .error .malformed

/-- Passes over the bare content of an optional value: nothing, fields with names,
or values, up to the closing parenthesis. -/
def bareWith (d : Dialect) (visit : Option (Bool → Reader Unit))
    (item : Option (Reader Unit)) : Reader Unit := fun cs =>
  if cs.head? = some ')' then .ok ((), cs)
  else do
    match ← layout cs with
    | .named => listed ')' visit (namedEntry item) cs
    | .several => listed ')' visit (orTooDeep item) cs
    | .single => valueWith d visit item cs

/-- Passes over one level of a value; `held` tells that the value is the content of
an optional value in parentheses. -/
def levelWith (d : Dialect) (held : Bool) (visit : Option (Bool → Reader Unit))
    (item : Option (Reader Unit)) : Reader Unit :=
  if held && d.bareContent then bareWith d visit item else valueWith d visit item

/-- Passes over a value that may nest to a depth, or over the content of an
optional value. -/
def valueIn (d : Dialect) : (depth : Nat) → (held : Bool) → Reader Unit
  | 0, held => levelWith d held none none
  | 1, held => levelWith d held (some (valueIn d 0)) none
  | depth + 2, held =>
    levelWith d held (some (valueIn d (depth + 1))) (some (valueIn d depth false))

/-- Passes over a value that may nest to a depth. -/
def value (d : Dialect) (depth : Nat) : Reader Unit := valueIn d depth false

end Reader

end PlantGrammar.Ron
