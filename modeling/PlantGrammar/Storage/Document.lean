import PlantGrammar.Failure
import PlantGrammar.Ron.Codec
import PlantGrammar.Storage.Save

/-!
# Files of values

A value is kept in a file as its RON text.
-/

namespace PlantGrammar.Storage

open Ron

variable {α : Type}

/-- The text of a value. -/
def textOf (c : Codec α) (a : α) : String := String.ofList (c.encode a)

/-- The value of a text. -/
def ofText (c : Codec α) (text : String) : Except Failure α :=
  (c.decode text.toList).mapError .ron

/-- Saves a value under a name; `tag` marks the draft. -/
def saveValue (c : Codec α) (a : α) (p : Place) (name tag : String) :
    Place × Except Failure Unit :=
  let (p, result) := p.save name tag (textOf c a)
  (p, result.mapError .storage)

/-- The value of a file. -/
def loadValue (c : Codec α) (p : Place) (name : String) : Except Failure α := do
  ofText c (← (p.read name).mapError .storage)

end PlantGrammar.Storage
