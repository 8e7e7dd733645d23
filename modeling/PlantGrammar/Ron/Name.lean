import PlantGrammar.Ron.Reader
import PlantGrammar.Text.Names

/-!
# Names

Fields, records and variants have names. A name that is not made of letters can
be written behind a raw mark.
-/

namespace PlantGrammar.Ron

open Text

/-- Whether a name may begin with a character. -/
def beginsName (c : Char) : Bool := c = '_' || startsName c

/-- Whether a name behind a raw mark may hold a character. -/
def isRawName (c : Char) : Bool := continuesName c || c = '.' || c = '+' || c = '-'

/-- Whether a string, a byte or a byte string begins here, which a name must not
be taken for. -/
def beginsQuoted : List Char → Bool
  | 'b' :: '"' :: _ | 'b' :: '\'' :: _ | 'b' :: 'r' :: '"' :: _ | 'b' :: 'r' :: '#' :: _
  | 'r' :: '"' :: _ | 'r' :: '#' :: '"' :: _ | 'r' :: '#' :: '#' :: _ => true
  | _ => false

/-- Takes a name. One that goes on with a character that only raw names have is
malformed. -/
def Reader.identifier : Reader (List Char) := fun
  | [] => .error .malformed
  | c :: cs =>
    if !beginsName c || beginsQuoted (c :: cs) then .error .malformed
    else match c, cs with
      | 'r', '#' :: raw =>
        let (name, rest) := raw.span isRawName
        if name.isEmpty then .error .malformed else .ok (name, rest)
      | _, _ =>
        let (name, rest) := (c :: cs).span continuesName
        if rest.head?.any isRawName then .error .malformed else .ok (name, rest)

/-- Takes a word if it comes next and does not go on as a longer name. -/
def keyword? (word : String) (cs : List Char) : Option (List Char) :=
  (Reader.after? word.toList cs).bind fun rest =>
    if rest.head?.any continuesName then none else some rest

/-- A name as messages show it. -/
def shown (name : List Char) : String :=
  let plain := match name with
    | [] => false
    | c :: cs => beginsName c && cs.all continuesName
  if plain then String.ofList name else "r#" ++ String.ofList name

end PlantGrammar.Ron
