import PlantGrammar.Storage.Refusal

/-!
# Folders

A folder maps names to files and to further folders. The calls that reading and
saving use are functions on folders: each either changes one folder into another
or refuses and changes nothing.
-/

namespace PlantGrammar.Storage

/-- What a name in a folder stands for. -/
inductive Entry where
  | file (content : ByteArray)
  | folder

/-- The entries of a folder. Of two with one name the first counts. -/
structure Folder where
  entries : List (String × Entry)

/-- The folder that a path leads to, if there is one. -/
abbrev Place := Option Folder

namespace Folder

/-- A folder without entries. -/
def empty : Folder := ⟨[]⟩

/-- Whether a name stands for the folder itself or for the one above it, in every
folder. -/
def isLink (name : String) : Bool := name = "." || name = ".."

/-- What a name stands for. -/
def get? (f : Folder) (name : String) : Option Entry :=
  if isLink name then some .folder else f.entries.lookup name

/-- The folder without a name. -/
def erase (f : Folder) (name : String) : Folder := ⟨f.entries.filter fun e => e.1 != name⟩

/-- The folder where a name stands for an entry. -/
def put (f : Folder) (name : String) (entry : Entry) : Folder :=
  ⟨(name, entry) :: (f.erase name).entries⟩

/-- The names in a folder, in ascending order. -/
def names (f : Folder) : List String := (f.entries.map (·.1)).mergeSort fun a b => a ≤ b

end Folder

namespace Place

/-- The most bytes that a name may have. -/
def maxNameBytes : Nat := 255

/-- The folder in which a name is looked up. A name with a slash leads on into a
folder that is not there. -/
def enter (p : Place) (name : String) : Except Refusal Folder :=
  if '\x00' ∈ name.toList then .error .nulInName
  else match p with
    | none => .error .notFound
    | some f =>
      if '/' ∈ name.toList then .error .notFound
      else if maxNameBytes < name.utf8ByteSize then .error .nameTooLong
      else .ok f

/-- Writes a file, over one of that name if there is one. -/
def write (p : Place) (name : String) (content : ByteArray) : Except Refusal Place := do
  let f ← p.enter name
  match f.get? name with
  | some .folder => .error .isFolder
  | _ => .ok (some (f.put name (.file content)))

/-- Gives a file another name, in place of a file of that name if there is one. -/
def rename (p : Place) (source target : String) : Except Refusal Place := do
  let f ← p.enter source
  let _ ← p.enter target
  if Folder.isLink source || Folder.isLink target then .error .busy
  else match f.get? source, f.get? target with
    | some (.file _), some .folder => .error .isFolder
    | some (.file content), _ => .ok (some ((f.erase source).put target (.file content)))
    | _, _ => .error .notFound

/-- Removes a file. -/
def remove (p : Place) (name : String) : Except Refusal Place := do
  let f ← p.enter name
  match f.get? name with
  | some (.file _) => .ok (some (f.erase name))
  | some .folder => .error .isFolder
  | none => .error .notFound

/-- The text of a file. -/
def read (p : Place) (name : String) : Except Refusal String := do
  let f ← p.enter name
  match f.get? name with
  | none => .error .notFound
  | some .folder => .error .isFolder
  | some (.file content) =>
    match String.fromUTF8? content with
    | some text => .ok text
    | none => .error .notText

end Place

end PlantGrammar.Storage
