import PlantGrammar.Ron.Reader
import PlantGrammar.Text.Hex
import PlantGrammar.Text.Visible

/-!
# Strings and characters

A string is written with every character that cannot be seen spelled out; a
character only guards its own mark and the backslash. Reading undoes both, and
knows a few more ways of spelling.
-/

namespace PlantGrammar.Ron

open Text

/-! ## Writing -/

/-- A character inside a string. -/
def escapeInString (c : Char) : List Char :=
  match c with
  | '\x00' => ['\\', '0']
  | '\t' => ['\\', 't']
  | '\r' => ['\\', 'r']
  | '\n' => ['\\', 'n']
  | '\'' => ['\\', '\'']
  | '"' => ['\\', '"']
  | '\\' => ['\\', '\\']
  | c => if isHidden c then '\\' :: 'u' :: '\x7b' :: (hexChars c.toNat ++ ['\x7d']) else [c]

/-- A string between its marks. -/
def writeString (cs : List Char) : List Char := '"' :: (cs.flatMap escapeInString ++ ['"'])

/-- A character between its marks. -/
def writeChar (c : Char) : List Char :=
  if c = '\'' ∨ c = '\\' then ['\'', '\\', c, '\''] else ['\'', c, '\'']

/-! ## Reading -/

/-- The character that a full sequence of UTF-8 bytes stands for. -/
def utf8Char? (bytes : List Nat) : Option Char :=
  let tail := fun (b : Nat) => if 0x80 ≤ b ∧ b < 0xC0 then some (b - 0x80) else none
  let valid := fun (least n : Nat) =>
    if h : n.isValidChar then if least ≤ n then some (Char.ofNatAux n h) else none else none
  match bytes with
  | [a] => if a < 0x80 then valid 0 a else none
  | [a, b] => do
    if 0xC0 ≤ a ∧ a < 0xE0 then valid 0x80 ((a - 0xC0) * 64 + (← tail b)) else none
  | [a, b, c] => do
    if 0xE0 ≤ a ∧ a < 0xF0 then
      valid 0x800 (((a - 0xE0) * 64 + (← tail b)) * 64 + (← tail c))
    else none
  | [a, b, c, d] => do
    if 0xF0 ≤ a ∧ a < 0xF8 then
      valid 0x10000 ((((a - 0xF0) * 64 + (← tail b)) * 64 + (← tail c)) * 64 + (← tail d))
    else none
  | _ => none

/-- A byte of two digits. -/
def byte? (high low : Char) : Option Nat := do
  return 16 * (← hexDigit? high) + (← hexDigit? low)

/-- A character spelled by up to `more` further bytes after those in `bytes`,
each behind its own mark. -/
def utf8Escape? : (more : Nat) → (bytes : List Nat) → List Char → Option (Char × List Char)
  | 0, bytes, cs => (utf8Char? bytes).map fun c => (c, cs)
  | more + 1, bytes, cs =>
    match utf8Char? bytes with
    | some c => some (c, cs)
    | none =>
      match cs with
      | '\\' :: 'x' :: high :: low :: rest => do
        utf8Escape? more (bytes ++ [← byte? high low]) rest
      | _ => none

/-- A character by its number, between braces, behind the letter that announces
it. -/
def numberEscape? (cs : List Char) : Option (Char × List Char) :=
  match cs with
  | '\x7b' :: cs =>
    match cs.span (· ≠ '\x7d') with
    | (digits, _ :: rest) =>
      if digits.length = 0 ∨ 6 < digits.length then none
      else do
        let n ← hexValue? digits
        if h : n.isValidChar then some (Char.ofNatAux n h, rest) else none
    | _ => none
  | _ => none

/-- What stands behind a backslash: the character it spells, and the rest. In a
string a character may take up to four bytes to spell, alone only one. -/
def escape? (alone : Bool) : List Char → Option (Char × List Char)
  | '\'' :: cs => some ('\'', cs)
  | '"' :: cs => some ('"', cs)
  | '\\' :: cs => some ('\\', cs)
  | 'n' :: cs => some ('\n', cs)
  | 'r' :: cs => some ('\r', cs)
  | 't' :: cs => some ('\t', cs)
  | '0' :: cs => some ('\x00', cs)
  | 'x' :: high :: low :: cs => do
    utf8Escape? (if alone then 0 else 3) [← byte? high low] cs
  | 'u' :: cs => numberEscape? cs
  | _ => none

/-- What stands behind a backslash in a string of bytes, where a byte needs to be
no character. -/
def byteEscape? : List Char → Option (List Char)
  | 'x' :: high :: low :: cs => (byte? high low).map fun _ => cs
  | cs => (escape? true cs).map (·.2)

/-- The rest of a string up to its closing mark. `done` holds what is read, last
character first; a text as long as the one to read is fuel enough. A string has no
end if no mark follows, also where an escape in it is malformed. -/
def readStringWith (escape : List Char → Option (Char × List Char)) :
    (fuel done : List Char) → Reader (List Char)
  | [], _, _ => .error .unclosed
  | _ :: _, _, [] => .error .unclosed
  | _ :: _, done, '"' :: cs => .ok (done.reverse, cs)
  | _ :: fuel, done, '\\' :: cs =>
    match escape cs with
    | some (c, rest) => readStringWith escape fuel (c :: done) rest
    | none => .error (if '"' ∈ cs then .malformed else .unclosed)
  | _ :: fuel, done, c :: cs => readStringWith escape fuel (c :: done) cs

/-- The rest of a raw string, up to a mark that `hashes` hashes follow. -/
def readRawBody (hashes : List Char) : (done : List Char) → Reader (List Char)
  | _, [] => .error .unclosed
  | done, c :: cs =>
    match if c = '"' then Reader.after? hashes cs else none with
    | some rest => .ok (done.reverse, rest)
    | none => readRawBody hashes (c :: done) cs

/-- A raw string behind its letter. -/
def readRaw : Reader (List Char) := fun cs =>
  match cs.span (· = '#') with
  | (hashes, '"' :: rest) => readRawBody hashes [] rest
  | _ => .error .malformed

/-- Takes a string, plain or raw. -/
def Reader.string : Reader (List Char) := fun
  | '"' :: cs => readStringWith (escape? false) cs [] cs
  | 'r' :: cs => readRaw cs
  | _ => .error .malformed

/-- Takes a string of bytes, of which only the extent matters. -/
def Reader.byteString : Reader Unit := fun cs =>
  let skip := fun (cs : List Char) => (byteEscape? cs).map fun rest => (' ', rest)
  match cs with
  | 'b' :: '"' :: cs => (readStringWith skip cs [] cs).map fun r => ((), r.2)
  | 'b' :: 'r' :: cs => (readRaw cs).map fun r => ((), r.2)
  | _ => .error .malformed

/-- Takes a character between its marks. -/
def Reader.char : Reader Char := fun
  | '\'' :: '\\' :: cs =>
    match escape? true cs with
    | some (c, '\'' :: rest) => .ok (c, rest)
    | _ => .error .malformed
  | '\'' :: c :: '\'' :: cs => .ok (c, cs)
  | _ => .error .malformed

/-- Takes a byte between its marks. -/
def Reader.byte : Reader Unit := fun
  | 'b' :: '\'' :: '\\' :: cs =>
    match cs with
    | 'u' :: _ => .error .malformed
    | _ =>
      match byteEscape? cs with
      | some ('\'' :: rest) => .ok ((), rest)
      | _ => .error .malformed
  | 'b' :: '\'' :: c :: '\'' :: cs => if c.toNat < 0x80 then .ok ((), cs) else .error .malformed
  | _ => .error .malformed

end PlantGrammar.Ron
