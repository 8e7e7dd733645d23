/-!
# What can be wrong with a RON text

Faults of content are told apart. Faults of form have one message; only a string
without an end is told from the others, because nothing behind it can be read.
-/

namespace PlantGrammar.Ron

/-- Why a text could not be read. -/
inductive Fault where
  /-- A record ends without one of the fields it needs. -/
  | missingField (field owner : String)
  /-- A record has a field twice. -/
  | duplicateField (field owner : String)
  /-- A record is headed by another name. -/
  | wrongName (expected found : String)
  /-- A name is none of an enumeration's. -/
  | unknownVariant (found owner : String) (expected : List String)
  /-- An integer does not fit its type. -/
  | outOfBounds
  /-- A text field holds what its type does not accept. -/
  | refusedText (reason : String)
  /-- A string goes on to the end of the text. -/
  | unclosed
  /-- The text breaks the rules of the notation in another way. -/
  | malformed
deriving DecidableEq, Repr

namespace Fault

/-- A name in a message. -/
def quoted (name : String) : String := "`" ++ name ++ "`"

/-- Names of an enumeration, as an English list. -/
def alternatives : List String → String
  | [] => ""
  | [name] => quoted name
  | [first, second] => quoted first ++ " or " ++ quoted second
  | names => String.intercalate ", " (names.dropLast.map quoted) ++ ", or " ++
      quoted (names.getLastD "")

/-- The reason in words, without a place in the text. -/
def message : Fault → String
  | missingField field owner =>
    "Unexpected missing field named " ++ quoted field ++ " in " ++ quoted owner
  | duplicateField field owner =>
    "Unexpected duplicate field named " ++ quoted field ++ " in " ++ quoted owner
  | wrongName expected found =>
    "Expected struct " ++ quoted expected ++ " but found " ++ quoted found
  | unknownVariant found owner expected =>
    "Unexpected variant named " ++ quoted found ++ " in enum " ++ quoted owner ++
      ", expected one of " ++ alternatives expected ++ " instead"
  | outOfBounds => "Integer is out of bounds"
  | refusedText reason => reason
  | unclosed | malformed => "syntax"

end Fault

end PlantGrammar.Ron
