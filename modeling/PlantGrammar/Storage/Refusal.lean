/-!
# Why the file system refuses

The causes that reading and saving meet, with the words that the system has for
them.
-/

namespace PlantGrammar.Storage

/-- Why a call on the file system fails. -/
inductive Refusal where
  /-- No entry of that name, or no folder to put it in. -/
  | notFound
  /-- A folder stands where a file is needed. -/
  | isFolder
  /-- A folder that is in use cannot take another name or give up its own. -/
  | busy
  /-- A name has more bytes than the system takes. -/
  | nameTooLong
  /-- A name holds the character that ends names inside the system. -/
  | nulInName
  /-- The bytes of a file are not UTF-8. -/
  | notText
  /-- No room is left on the device. -/
  | noRoom
deriving DecidableEq, Repr

/-- The system's words for a refusal. -/
def Refusal.message : Refusal → String
  | notFound => "No such file or directory (os error 2)"
  | isFolder => "Is a directory (os error 21)"
  | busy => "Device or resource busy (os error 16)"
  | nameTooLong => "File name too long (os error 36)"
  | nulInName => "file name contained an unexpected NUL byte"
  | notText => "stream did not contain valid UTF-8"
  | noRoom => "No space left on device (os error 28)"

end PlantGrammar.Storage
