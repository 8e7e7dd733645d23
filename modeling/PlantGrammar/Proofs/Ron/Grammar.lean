import PlantGrammar.Proofs.Ron.Layout
import PlantGrammar.Proofs.Ron.Name
import PlantGrammar.Ron.Value

/-!
# The values of the notation

The grammar of values, as a description of their texts without regard to how these are
read: literals, names, and what stands in brackets, with gaps wherever the notation has
room for them. `IsValue n` are the values that nest at most `n` deep; which values of the
notation it leaves out is told there.
-/

namespace PlantGrammar.Ron

open Reader Text

/-! ## Names -/

/-- How a name may be spelled: as it is, or behind a raw mark. -/
inductive Spells (name : List Char) : List Char → Prop
  | plain (h : IsName name) : Spells name name
  | raw (hname : name ≠ []) (h : ∀ c ∈ name, isRawName c = true) : Spells name ('r' :: '#' :: name)

/-! ## Numbers -/

/-- A sign, which may be left out, and whether it tells a negative number. -/
inductive IsSign : (negative : Bool) → List Char → Prop
  | absent : IsSign false []
  | plus : IsSign false ['+']
  | minus : IsSign true ['-']

/-- Whether a character is a digit of a base. -/
def isDigitOf (base : Nat) (c : Char) : Bool := (hexDigit? c).any (· < base)

/-- Digits, among which there may be underscores. -/
structure IsGroup (base : Nat) (cs : List Char) : Prop where
  digits : ∀ c ∈ cs, c ≠ '_' → isDigitOf base c = true
  nonempty : cs.any (isDigitOf base) = true

/-- Digits of which the first comes before any underscore. -/
structure IsDigits (base : Nat) (cs : List Char) : Prop where
  digits : ∀ c ∈ cs, c ≠ '_' → isDigitOf base c = true
  first : cs.head?.any (isDigitOf base) = true

/-- A number with one more digit behind it, or an underscore, which counts for nothing. -/
def appendDigit (base n : Nat) (c : Char) : Nat :=
  if c = '_' then n else n * base + (hexDigit? c).getD 0

/-- The number that some digits stand for. -/
def digitsValue (base : Nat) (cs : List Char) : Nat := cs.foldl (appendDigit base) 0

/-- A number behind its sign. -/
def withSign (negative : Bool) (n : Nat) : Int := if negative then -n else n

/-- The mark of a base other than ten. -/
inductive IsBase : (base : Nat) → List Char → Prop
  | hexadecimal : IsBase 16 ['0', 'x']
  | octal : IsBase 8 ['0', 'o']
  | binary : IsBase 2 ['0', 'b']

/-- The type that an integer without a type name is read in. -/
def widest (negative : Bool) : IntegerType := if negative then .signed 64 else .unsigned 64

/-- The bases whose digits may have the name of a type behind them, and their marks. -/
inductive IsTypedBase : (base : Nat) → List Char → Prop
  | decimal : IsTypedBase 10 []
  | binary : IsTypedBase 2 ['0', 'b']

/-- Integers that show to be no floats: of another base within 64 bits, or of the type
behind them. The types are those of 8, 16, 32 and 64 bits, with or without a sign, and one
stands behind decimal and binary digits alone. -/
inductive IsInteger : List Char → Prop
  | based {negative : Bool} {sign mark digits : List Char} {base : Nat}
      (hsign : IsSign negative sign) (hmark : IsBase base mark) (hdigits : IsDigits base digits)
      (hrange : (widest negative).holds (withSign negative (digitsValue base digits)) = true) :
      IsInteger (sign ++ (mark ++ digits))
  | typed {negative : Bool} {sign mark digits : List Char} {base : Nat} {t : IntegerType}
      (hsign : IsSign negative sign) (hmark : IsTypedBase base mark)
      (hdigits : IsDigits base digits) (ht : t ∈ IntegerType.all)
      (hrange : t.holds (withSign negative (digitsValue base digits)) = true) :
      IsInteger (sign ++ (mark ++ digits ++ t.name.toList))

/-- Decimal digits with a point in front, behind, between or without one. -/
inductive IsMantissa : List Char → Prop
  | whole {digits : List Char} (h : IsDigits 10 digits) : IsMantissa digits
  | point {digits : List Char} (h : IsDigits 10 digits) : IsMantissa (digits ++ ['.'])
  | places {digits places : List Char} (h : IsDigits 10 digits) (hplaces : IsDigits 10 places) :
      IsMantissa (digits ++ '.' :: places)
  | fraction {places : List Char} (hplaces : IsDigits 10 places) : IsMantissa ('.' :: places)

/-- A power of ten, which may be left out. -/
inductive IsExponent : List Char → Prop
  | absent : IsExponent []
  | present {mark : Char} {negative : Bool} {sign digits : List Char}
      (hmark : mark = 'e' ∨ mark = 'E') (hsign : IsSign negative sign) (hdigits : IsGroup 10 digits) :
      IsExponent (mark :: (sign ++ digits))

/-- Numerals of any size, and words behind a sign, with or without the name of a type. -/
inductive IsFloat : List Char → Prop
  | numeral {negative : Bool} {sign mantissa exponent : List Char} {t : String}
      (hsign : IsSign negative sign) (hmantissa : IsMantissa mantissa)
      (hexponent : IsExponent exponent) (ht : t ∈ ["", "f32", "f64"]) :
      IsFloat (sign ++ (mantissa ++ exponent) ++ t.toList)
  | word {word t : String} (hword : word ∈ ["+inf", "-inf", "+NaN", "-NaN"])
      (ht : t ∈ ["", "f32", "f64"]) : IsFloat (word.toList ++ t.toList)

/-! ## Strings and characters -/

/-- What stands behind a backslash for a single character. -/
def escapeMarks : List Char := ['\'', '"', '\\', 'n', 'r', 't', '0']

/-- Bytes, each in two digits behind its mark; the first backslash is in front. -/
inductive SpellsBytes : List Nat → List Char → Prop
  | single {high low : Char} {b : Nat} (h : byte? high low = some b) :
      SpellsBytes [b] ['x', high, low]
  | cons {high low : Char} {b : Nat} {bytes : List Nat} {text : List Char}
      (h : byte? high low = some b) (hmore : SpellsBytes bytes text) :
      SpellsBytes (b :: bytes) ('x' :: high :: low :: '\\' :: text)

/-- The number of a character between braces, in up to six digits. -/
inductive IsNumberEscape : List Char → Prop
  | intro {digits : List Char} {n : Nat} (hlength : 1 ≤ digits.length ∧ digits.length ≤ 6)
      (hvalue : hexValue? digits = some n) (hvalid : n.isValidChar) :
      IsNumberEscape ('u' :: '\x7b' :: (digits ++ ['\x7d']))

/-- What stands behind a backslash: a mark, the number of a character, or bytes as `isBytes`
allows them, which for a string are those of a character. -/
inductive IsEscape (isBytes : List Nat → Prop) : List Char → Prop
  | mark {c : Char} (h : c ∈ escapeMarks) : IsEscape isBytes [c]
  | number {text : List Char} (h : IsNumberEscape text) : IsEscape isBytes text
  | bytes {bytes : List Nat} {text : List Char} (hbytes : isBytes bytes)
      (h : SpellsBytes bytes text) : IsEscape isBytes text

/-- The bytes of a character. -/
def IsCharacter (bytes : List Nat) : Prop := (utf8Char? bytes).isSome = true

/-- A single byte that is a character. -/
def IsAscii (bytes : List Nat) : Prop := bytes.length = 1 ∧ IsCharacter bytes

/-- A single byte. -/
def IsByte (bytes : List Nat) : Prop := bytes.length = 1

/-- What stands between the marks of a string. -/
inductive IsBody (isEscape : List Char → Prop) : List Char → Prop
  | nil : IsBody isEscape []
  | char {c : Char} {body : List Char} (hmark : c ≠ '"') (hback : c ≠ '\\')
      (h : IsBody isEscape body) : IsBody isEscape (c :: body)
  | escape {text body : List Char} (htext : isEscape text) (h : IsBody isEscape body) :
      IsBody isEscape ('\\' :: (text ++ body))

/-- A string between two marks with as many hashes, which does not hold the closing one. -/
inductive IsRaw : List Char → Prop
  | intro {count : Nat} {body : List Char}
      (hbody : ¬ '"' :: List.replicate count '#' <:+: body) :
      IsRaw (List.replicate count '#' ++ '"' :: (body ++ '"' :: List.replicate count '#'))

/-! ## Literals -/

/-- Values without parts. -/
inductive IsLiteral : List Char → Prop
  | unit : IsLiteral ['(', ')']
  | integer {text : List Char} (h : IsInteger text) : IsLiteral text
  | float {text : List Char} (h : IsFloat text) : IsLiteral text
  | string {body : List Char} (h : IsBody (IsEscape IsCharacter) body) :
      IsLiteral ('"' :: (body ++ ['"']))
  | rawString {text : List Char} (h : IsRaw text) : IsLiteral ('r' :: text)
  | byteString {body : List Char} (h : IsBody (IsEscape IsByte) body) :
      IsLiteral ('b' :: '"' :: (body ++ ['"']))
  | rawByteString {text : List Char} (h : IsRaw text) : IsLiteral ('b' :: 'r' :: text)
  | char {c : Char} (h : c ≠ '\\') : IsLiteral ['\'', c, '\'']
  | escapedChar {text : List Char} (h : IsEscape IsAscii text) :
      IsLiteral ('\'' :: '\\' :: (text ++ ['\'']))
  | byte {c : Char} (h : c ≠ '\\') (hbyte : c.toNat < 0x80) : IsLiteral ['b', '\'', c, '\'']
  | escapedByte {text : List Char} (h : IsEscape IsByte text) (hnumber : ¬ IsNumberEscape text) :
      IsLiteral ('b' :: '\'' :: '\\' :: (text ++ ['\'']))

/-! ## Values -/

/-- A key and a value, with a colon and gaps between them. -/
structure Entry where
  key : List Char
  before : List Char
  behind : List Char
  value : List Char
  isGap_before : IsGap before
  isGap_behind : IsGap behind

/-- The text of an entry. -/
def Entry.text (e : Entry) : List Char := e.key ++ (e.before ++ ':' :: (e.behind ++ e.value))

/-- The words that a record cannot have for a name, as they are values. -/
def words : List String := "Some" :: valueWords

/-- What stands in front of parentheses: nothing, or a name that is not one of the words. -/
inductive IsHead : List Char → Prop
  | nil : IsHead []
  | name {name text gap : List Char} (h : Spells name text) (hword : ∀ w ∈ words, text ≠ w.toList)
      (hgap : IsGap gap) : IsHead (text ++ gap)

/-- How many steps inside it takes to read some items: one, and one more for each of the
items, if there are any. -/
def steps {β : Type} (items : List β) : Nat := if items.isEmpty then 1 else 2

/-- The values that nest at most as deep. Alone a name stands for itself, one of the words
for a truth value, a number or nothing.

These are the values of the notation but for some that are refused: integers of base
two, eight or sixteen beyond 64 bits; the name of a type of 128 bits behind an integer, that
of a type that the integer does not fit, and any behind digits of base eight or sixteen;
escapes that spell no character, or no single one between the marks of a character; and one
of the words in front of parentheses, except for `Some` in front of a single value, which
does not stand alone. -/
inductive IsValue : Nat → List Char → Prop
  | literal {n : Nat} {text : List Char} (h : IsLiteral text) : IsValue n text
  | name {n : Nat} {name text : List Char} (h : Spells name text)
      (hsome : text ≠ "Some".toList) : IsValue n text
  | optional {inner n : Nat} {gap value body : List Char} (hgap : IsGap gap)
      (hbody : Sequence [value] body) (hvalue : IsValue inner value) (hn : inner + 1 ≤ n) :
      IsValue n ("Some".toList ++ (gap ++ '(' :: (body ++ [')'])))
  | list {inner n : Nat} {values : List (List Char)} {body : List Char}
      (hbody : Sequence values body) (hvalues : ∀ v ∈ values, IsValue inner v)
      (hn : inner + steps values ≤ n) : IsValue n ('[' :: (body ++ [']']))
  | map {inner n : Nat} {entries : List Entry} {body : List Char}
      (hbody : Sequence (entries.map Entry.text) body)
      (hkeys : ∀ e ∈ entries, IsValue inner e.key) (hvalues : ∀ e ∈ entries, IsValue inner e.value)
      (hn : inner + steps entries ≤ n) : IsValue n ('\x7b' :: (body ++ ['\x7d']))
  | tuple {inner n : Nat} {head : List Char} {values : List (List Char)} {body : List Char}
      (hhead : IsHead head) (hbody : Sequence values body)
      (hvalues : ∀ v ∈ values, IsValue inner v) (hn : inner + steps values ≤ n) :
      IsValue n (head ++ '(' :: (body ++ [')']))
  | record {inner n : Nat} {head : List Char} {entries : List Entry} {body : List Char}
      (hhead : IsHead head) (hsome : entries ≠ []) (hbody : Sequence (entries.map Entry.text) body)
      (hkeys : ∀ e ∈ entries, ∃ name, Spells name e.key)
      (hvalues : ∀ e ∈ entries, IsValue inner e.value) (hn : inner + 2 ≤ n) :
      IsValue n (head ++ '(' :: (body ++ [')']))

end PlantGrammar.Ron
