import PlantGrammar.Numeric.Text
import PlantGrammar.Ron.Fault
import PlantGrammar.Storage.Refusal

/-!
# Everything that can go wrong

`Failure` lists the causes for which growing, drawing, reading or saving a plant
stops, and `Failure.message` is the text shown for each.
-/

namespace PlantGrammar

open Numeric

/-- Why a plant could not be grown, drawn, read or saved. -/
inductive Failure where
  /-- A `]` without a `[` to close, at a position of the word. -/
  | unbalancedBracket (position : Nat)
  /-- A word under construction passed the limit. -/
  | tooManySymbols (generation symbols limit : Nat)
  /-- More generations were asked for than the limit allows. -/
  | tooManyGenerations (requested limit : Nat)
  /-- A parameter is outside its domain. -/
  | invalidParameter (name : String) (value : Float) (reason : String)
  /-- A colour text could not be read. -/
  | invalidColor (detail : String)
  /-- The catalogue has no such entry. -/
  | unknownPreset (key : String)
  /-- The file system refused. -/
  | storage (cause : Storage.Refusal)
  /-- A RON text could not be read. -/
  | ron (cause : Ron.Fault)

namespace Failure

/-- The text of a failure. -/
def message : Failure → String
  | unbalancedBracket position =>
    "Unbalanced bracket: ']' at symbol " ++ toString position ++ " has no matching '['"
  | tooManySymbols generation symbols limit =>
    "Expansion too large: generation " ++ toString generation ++ " reached " ++
      toString symbols ++ " symbols (limit " ++ toString limit ++ ")"
  | tooManyGenerations requested limit =>
    "Expansion too large: " ++ toString requested ++ " generations requested (limit " ++
      toString limit ++ ")"
  | invalidParameter name value reason =>
    "Invalid parameter " ++ name ++ "=" ++ floatText value ++ ": " ++ reason
  | invalidColor detail => "Invalid color: " ++ detail
  | unknownPreset key => "Unknown preset: " ++ key
  | storage cause => "IO error: " ++ cause.message
  | ron cause => "RON parse error: " ++ cause.message

end Failure

end PlantGrammar
