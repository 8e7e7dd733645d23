import PlantGrammar.Numeric.Text
import PlantGrammar.Ron.Name
import PlantGrammar.Text.Hex

/-!
# Numbers

Integers may be written in base two, eight, ten or sixteen and name their type;
floats may be written with an exponent, as infinities and as the non-number. Both
may group digits by underscores. Written integers are plain decimal, written
floats the shortest positional text with at least one place. A float is kept as its encoding,
because a text also tells the sign of a non-number.
-/

namespace PlantGrammar.Ron

open Numeric Text

/-! ## Integers -/

/-- A type of integers, with the name that may follow a number. -/
structure IntegerType where
  name : String
  low : Int
  high : Int
deriving Repr

namespace IntegerType

/-- The integers of some bits, one of them for the sign. -/
def signed (bits : Nat) : IntegerType :=
  ⟨"i" ++ toString bits, -Nat.pow 2 (bits - 1), Nat.pow 2 (bits - 1) - 1⟩

/-- The natural numbers of some bits. -/
def unsigned (bits : Nat) : IntegerType := ⟨"u" ++ toString bits, 0, Nat.pow 2 bits - 1⟩

/-- All types that may be named. -/
def all : List IntegerType :=
  [signed 8, signed 16, signed 32, signed 64, unsigned 8, unsigned 16, unsigned 32, unsigned 64]

/-- Whether a number is of a type. -/
def holds (t : IntegerType) (n : Int) : Bool := t.low ≤ n && n ≤ t.high

end IntegerType

/-- What a run of digits of any base consists of. -/
def isIntegerChar (c : Char) : Bool := (hexDigit? c).isSome || c = '_'

/-- Takes a sign off a number, and tells whether it is negative. -/
def splitSign : List Char → Bool × List Char
  | '-' :: cs => (true, cs)
  | '+' :: cs => (false, cs)
  | cs => (false, cs)

/-- The base of a number, its digits, and what follows them. -/
def digitRun (cs : List Char) : Nat × List Char × List Char :=
  match cs with
  | '0' :: 'x' :: rest => (16, rest.span isIntegerChar)
  | '0' :: 'o' :: rest => (8, rest.span isIntegerChar)
  | '0' :: 'b' :: rest => (2, rest.span isIntegerChar)
  | _ => (10, cs.span isIntegerChar)

/-- The value of some digits, taken from the left; a value that leaves the type
on the way is out of bounds, whatever follows. -/
def accumulate (t : IntegerType) (negative : Bool) (base : Nat) :
    (value : Int) → List Char → Except Fault Int
  | value, [] => .ok value
  | value, c :: cs =>
    if c = '_' then accumulate t negative base value cs
    else if !t.holds (value * base) then .error .outOfBounds
    else match hexDigit? c with
      | none => .error .malformed
      | some digit =>
        let next := if negative then value * base - digit else value * base + digit
        if base ≤ digit then .error .malformed
        else if t.holds next then accumulate t negative base next cs
        else .error .outOfBounds

/-- The value of the digits of a number, which must not begin with an
underscore. -/
def integerValue (t : IntegerType) (negative : Bool) (base : Nat) (digits : List Char) :
    Except Fault Int :=
  if digits.isEmpty || digits.head? = some '_' then .error .malformed
  else accumulate t negative base 0 digits

/-- The type that is named behind the digits of a number, and what follows. -/
def namedType? (cs : List Char) : Option (IntegerType × List Char) :=
  let rest := cs.dropWhile isIntegerChar
  IntegerType.all.findSome? fun t => (keyword? t.name rest).map fun after => (t, after)

/-- Takes a number of a type; a number that names its type has to name this
one. -/
def Reader.natural (t : IntegerType) : Reader Nat := fun cs =>
  let (negative, body) := splitSign cs
  let (base, digits, rest) := digitRun body
  match namedType? body with
  | some (named, after) => do
    let n ← integerValue named negative base digits
    if named.name = t.name then return (n.toNat, after) else throw .malformed
  | none => do
    let n ← integerValue t negative base digits
    return (n.toNat, rest)

/-- The extent of a number of any integer type, and whether it is one. -/
def integerExtent (cs : List Char) : List Char × Except Fault Unit :=
  let (negative, body) := splitSign cs
  let (base, digits, rest) := digitRun body
  match namedType? body with
  | some (named, after) => (after, (integerValue named negative base digits).map fun _ => ())
  | none =>
    let t := if negative then IntegerType.signed 64 else IntegerType.unsigned 64
    (rest, (integerValue t negative base digits).map fun _ => ())

/-! ## Floats -/

/-- What a numeral with a point or an exponent consists of. -/
def isFloatChar (c : Char) : Bool :=
  c.isDigit || c = 'e' || c = 'E' || c = '.' || c = '+' || c = '-' || c = '_'

/-- The words for infinities and the non-number. -/
def floatWords : List String := ["inf", "+inf", "-inf", "NaN", "+NaN", "-NaN"]

/-- A numeral without its underscores, which may follow digits and the mark of
an exponent. -/
def ungrouped? : (mayGroup : Bool) → List Char → Option (List Char)
  | _, [] => some []
  | mayGroup, c :: cs =>
    if c = '_' then if mayGroup then ungrouped? true cs else none
    else
      let mayGroup := if c = '.' then false else if c = '+' ∨ c = '-' then mayGroup else true
      (ungrouped? mayGroup cs).map (c :: ·)

/-- A float with any of the given type names behind it, and what follows. -/
def float? (typeNames : List String) (cs : List Char) :
    Option (Encoding .binary64 × List Char) :=
  let word := fun (word : String) =>
    (("" :: typeNames).findSome? fun t => keyword? (word ++ t) cs).map fun rest => (word, rest)
  match floatWords.findSome? word with
  | some (word, rest) => (Encoding.ofChars? _ word.toList).map fun x => (x, rest)
  | none =>
    let (run, rest) := cs.span isFloatChar
    ((ungrouped? false run).bind (Encoding.ofChars? _)).map fun x =>
      (x, (typeNames.findSome? fun t => keyword? t rest).getD rest)

/-- Takes a float of double precision. -/
def Reader.float : Reader (Encoding .binary64) := fun cs =>
  match float? ["f64"] cs with
  | some r => .ok r
  | none => .error .malformed

/-- Whether a number can only be a float: its numeral goes on where digits of an
integer end. -/
def looksFloat (cs : List Char) : Bool :=
  let body := (splitSign cs).2
  (body.takeWhile isIntegerChar).length < (body.takeWhile isFloatChar).length

/-- Takes a number of any type. An integer too large for its type may still be a
float, if no more of the text belongs to the integer. -/
def Reader.anyNumber : Reader Unit := fun cs =>
  let asFloat := (float? ["f32", "f64"] cs).map (·.2)
  if looksFloat cs then
    match asFloat with
    | some rest => .ok ((), rest)
    | none => .error .malformed
  else match integerExtent cs, asFloat with
    | (rest, .ok _), _ => .ok ((), rest)
    | (after, .error fault), some rest =>
      if rest.length ≤ after.length then .ok ((), rest) else .error fault
    | (_, .error fault), none => .error fault

/-! ## Writing -/

/-- A natural number in plain decimal. -/
def writeNatural (n : Nat) : List Char := Nat.toDigits 10 n

/-- A float, with a place even where it is whole, and a non-number with its sign. -/
def writeFloat (x : Encoding .binary64) : List Char :=
  let cs := x.chars
  if x.isNaN && x.negative then '-' :: cs
  else if x.isFinite && !cs.contains '.' then cs ++ ['.', '0']
  else cs

end PlantGrammar.Ron
