import PlantGrammar.Ron.Value

/-!
# Codecs

A codec writes the values of a type and reads them back. Lists and records are
written over several lines, each item or field on its own line with a comma
behind it. A record is read whatever the order of its fields; fields that it does
not know are passed over.
-/

namespace PlantGrammar.Ron

open Reader

/-- Writes values at a level of indentation, and reads them with some depth
left. -/
structure Codec (α : Type) where
  write : (level : Nat) → α → List Char
  read : Dialect → (depth : Nat) → Reader α

variable {α β : Type}

/-- The blanks at the beginning of a line. -/
def indent (level : Nat) : List Char := List.replicate (4 * level) ' '

/-- Lines between two brackets. -/
def writeLines (level : Nat) (opening closing : Char) (lines : List (List Char)) : List Char :=
  opening :: '\n' ::
    (lines.flatMap fun line => indent (level + 1) ++ line ++ [',', '\n']) ++
    indent level ++ [closing]

namespace Codec

/-! ## Lists -/

/-- Lists of values. -/
def list (c : Codec α) : Codec (List α) where
  write level
    | [] => ['[', ']']
    | xs => writeLines level '[' ']' (xs.map (c.write (level + 1)))
  read d depth := do
    expect '['
    let found ← inside (fun depth => items ']' (fun found => do
      return (← inside (c.read d) depth) :: found) []) depth
    blank
    expect ']'
    return found.reverse

end Codec

/-! ## Records -/

/-- A field of a record: how its value is written, and how it is read into a
record under construction. -/
structure Field (α : Type) where
  name : String
  write : (level : Nat) → α → List Char
  read : Dialect → (depth : Nat) → α → Reader α

/-- A field by its access to the record and the codec of its value. -/
def Field.of (name : String) (get : α → β) (set : β → α → α) (c : Codec β) : Field α where
  name
  write level a := c.write level (get a)
  read d depth a := do return set (← c.read d depth) a

/-- A record type: its name, its fields in the order of writing, and the value to
start from. Where all fields are required nothing of that value is left. -/
structure Record (α : Type) where
  name : String
  fields : List (Field α)
  required : Bool
  initial : α

namespace Record

/-- The fields, each on its line. -/
def write (r : Record α) (level : Nat) (a : α) : List Char :=
  writeLines level '(' ')' (r.fields.map fun field =>
    field.name.toList ++ ':' :: ' ' :: field.write (level + 1) a)

/-- Reads one field into a record under construction, whose known fields so far
are `seen`. -/
def readField (r : Record α) (d : Dialect) (depth : Nat) : α × List String → Reader (α × List String)
  | (a, seen) => do
    let key ← inside (fun _ => identifier) depth
    let field := r.fields.find? fun field => field.name.toList == key
    match field with
    | some field =>
      if seen.contains field.name then throw (.duplicateField field.name r.name)
      blank
      expect ':'
      blank
      return (← inside (fun depth => field.read d depth a) depth, field.name :: seen)
    | none =>
      blank
      expect ':'
      blank
      inside (value d) depth
      return (a, seen)

/-- Reads the fields in parentheses. A required field that is missing is told
before the closing parenthesis is taken. -/
def readFields (r : Record α) (d : Dialect) (depth : Nat) : Reader α := do
  blank
  expect '('
  let a ← inside (fun depth => do
    let (a, seen) ← items ')' (r.readField d depth) (r.initial, [])
    match if r.required then r.fields.find? fun field => !seen.contains field.name else none with
    | some field => throw (.missingField field.name r.name)
    | none => return a) depth
  blank
  expect ')'
  return a

/-- Reads the name at the head of a record, which may be left out unless the
dialect asks for it. -/
def readName (r : Record α) (d : Dialect) : Reader Unit := do
  if (← peek?).any Text.continuesName then
    let found ← identifier
    if found ≠ r.name.toList then throw (.wrongName r.name (shown found))
  else if d.explicitNames then malformed

/-- A record as a value of its own. -/
def codec (r : Record α) : Codec α where
  write := r.write
  read d depth := do
    r.readName d
    r.readFields d depth

end Record

/-! ## Enumerations -/

/-- A variant of an enumeration, by what is read behind its name. -/
structure Variant (α : Type) where
  name : String
  read : Dialect → (depth : Nat) → Reader α

namespace Variant

/-- A variant that is its name alone. -/
def plain (name : String) (a : α) : Variant α := ⟨name, fun _ _ => return a⟩

/-- A variant with one value in parentheses. -/
def single (name : String) (c : Codec β) (make : β → α) : Variant α where
  name
  read d depth := do
    blank
    expect '('
    blank
    let b ← inside (c.read d) depth
    let _ ← comma
    expect ')'
    return make b

/-- A variant with the fields of a record. -/
def fields (r : Record β) (make : β → α) : Variant α where
  name := r.name
  read d depth := do return make (← r.readFields d depth)

end Variant

/-- The variants of an enumeration, told apart by the name in front. -/
def Codec.enumeration (owner : String) (variants : List (Variant α))
    (write : (level : Nat) → α → List Char) : Codec α where
  write
  read d depth := inside (fun depth => do
    blank
    let found ← inside (fun _ => identifier) depth
    match variants.find? fun variant => variant.name.toList == found with
    | some variant => variant.read d depth
    | none => throw (.unknownVariant (shown found) owner (variants.map (·.name)))) depth

/-! ## Whole texts -/

/-- Reads the extensions of an attribute. A text as long as the one to read is
fuel enough. -/
def readExtensions : (fuel : List Char) → Dialect → Reader Dialect
  | [], _ => malformed
  | _ :: fuel, d => do
    let extension ← identifier
    let d ← match String.ofList extension with
      | "explicit_struct_names" => pure { d with explicitNames := true }
      | "implicit_some" => pure { d with implicitSome := true }
      | "unwrap_variant_newtypes" => pure { d with bareContent := true }
      | "unwrap_newtypes" => pure d
      | _ => malformed
    if (← comma) && (← peek?).any Text.continuesName then readExtensions fuel d else return d

/-- Reads the attributes at the head of a text. -/
def readAttributes : (fuel : List Char) → Dialect → Reader Dialect
  | [], d => return d
  | _ :: fuel, d => do
    if (← peek?) = some '#' then
      for mark in ["#", "!", "[", "enable", "("] do
        expectText mark
        blank
      let d ← fun cs => readExtensions cs d cs
      blank
      for mark in [")", "]"] do
        expectText mark
        blank
      readAttributes fuel d
    else return d

/-- Reads a text that holds one value and nothing else but blanks. -/
def Codec.document (c : Codec α) : Reader α := do
  blank
  let d ← fun cs => readAttributes cs {} cs
  let a ← c.read d maxDepth
  blank
  if (← peek?).isSome then malformed
  return a

/-- The text of a value. -/
def Codec.encode (c : Codec α) (a : α) : List Char := c.write 0 a

/-- The value of a text. -/
def Codec.decode (c : Codec α) (text : List Char) : Except Fault α :=
  (c.document text).map (·.1)

end PlantGrammar.Ron
