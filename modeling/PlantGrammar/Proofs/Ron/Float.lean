import PlantGrammar.Proofs.Numeric.Decimal
import PlantGrammar.Proofs.Numeric.Machine
import PlantGrammar.Proofs.Numeric.Text
import PlantGrammar.Proofs.Ron.Name
import PlantGrammar.Proofs.Text.Hex
import PlantGrammar.Ron.Number

/-!
# Floats are read back

A float is written as one of four words or as a numeral with a place, and both are
read for what they were written for. Only the payload of a non-number is lost, which
no text tells.
-/

namespace PlantGrammar.Ron

open Reader Numeric

/-! ## What is written -/

/-- The mark of a negative number. -/
def signChars (negative : Bool) : List Char := if negative then ['-'] else []

/-- A decimal with one place at least. -/
def withPlace (d : Decimal) : Decimal := if d.places = 0 then ⟨10 * d.digits, 1⟩ else d

theorem nearest_withPlace (f : Format) (d : Decimal) : (withPlace d).nearest f = d.nearest f := by
  rw [withPlace]
  split
  · next h =>
    rw [Decimal.nearest, Decimal.nearest, h, Nat.mul_comm]
    exact Format.nearest_mul Nat.one_pos (by decide : 0 < 10)
  · rfl

theorem mem_chars_point {d : Decimal} : '.' ∈ d.chars ↔ d.places ≠ 0 := by
  constructor
  · intro hpoint hplaces
    rw [Decimal.chars, if_pos hplaces] at hpoint
    cases Text.isDigit_of_mem_toDigits _ hpoint
  · intro hplaces
    rw [Decimal.chars_of_places hplaces]
    exact List.mem_append_right _ List.mem_cons_self

theorem chars_withPlace (d : Decimal) :
    (withPlace d).chars = if '.' ∈ d.chars then d.chars else d.chars ++ ['.', '0'] := by
  by_cases h : d.places = 0
  · have hten : 10 * d.digits % 10 = 0 := by omega
    have hwhole : 10 * d.digits / 10 = d.digits := by omega
    rw [withPlace, if_pos h, if_neg (by simpa [mem_chars_point] using h), Decimal.chars_of_places
      Nat.one_ne_zero, Decimal.chars, if_pos h, h]
    simp [Decimal.fraction, hten, hwhole]
  · rw [withPlace, if_neg h, if_pos (mem_chars_point.mpr h)]

variable {x : Encoding .binary64} {rest : List Char}

theorem isNaN_eq_false_of_isFinite (h : x.isFinite = true) : x.isNaN = false := by
  have hbelow : x.pattern < Format.binary64.infinity := of_decide_eq_true h
  exact decide_eq_false (Nat.lt_asymm hbelow)

theorem chars_of_isFinite (h : x.isFinite = true) :
    x.chars = signChars x.negative ++ (Format.binary64.shortest x.pattern).chars := by
  rw [Encoding.chars, isNaN_eq_false_of_isFinite h, Encoding.magnitude, h]
  cases x.negative <;> rfl

theorem writeFloat_of_isFinite (h : x.isFinite = true) :
    writeFloat x =
      signChars x.negative ++ (withPlace (Format.binary64.shortest x.pattern)).chars := by
  have hsign : '.' ∉ signChars x.negative := by cases x.negative <;> decide
  rw [writeFloat, chars_of_isFinite h, isNaN_eq_false_of_isFinite h, h, chars_withPlace]
  by_cases hpoint : '.' ∈ (Format.binary64.shortest x.pattern).chars
  · rw [if_pos hpoint]
    simp [hpoint]
  · rw [if_neg hpoint]
    simp [hpoint, hsign]

/-- What is no finite number is written in a word. -/
theorem writeFloat_of_not_isFinite (h : x.isFinite = false) :
    writeFloat x = signChars x.negative ++ (if x.isNaN then "NaN" else "inf").toList := by
  cases hnumber : x.isNaN <;> cases hsign : x.negative <;>
    simp [writeFloat, Encoding.chars, Encoding.magnitude, hnumber, hsign, h, signChars]

/-! ## Words -/

/-- The names of types that may stand behind a float. -/
def floatTypes : List String := ["f32", "f64"]

theorem isWord_floatWords :
    ∀ word ∈ floatWords, ∀ t ∈ "" :: floatTypes, IsWord (word ++ t) := by decide

/-- No word with the name of a type behind it is another with one. -/
theorem floatWords_apart : ∀ word ∈ floatWords, ∀ other ∈ floatWords, ∀ t ∈ "" :: floatTypes,
    ∀ u ∈ "" :: floatTypes, word ++ t = other ++ u → word = other := by decide

variable {typeNames : List String} {word t : String}

/-- The words of a float, as they are looked for in front of a text. -/
def floatWord? (typeNames : List String) (cs : List Char) (word : String) :
    Option (String × List Char) :=
  (("" :: typeNames).findSome? fun t => keyword? (word ++ t) cs).map fun rest => (word, rest)

theorem floatWord?_eq_some {cs : List Char} {found : String × List Char}
    (h : floatWord? typeNames cs word = some found) :
    found.1 = word ∧ ∃ t ∈ "" :: typeNames, keyword? (word ++ t) cs = some found.2 := by
  obtain ⟨rest, hrest, rfl⟩ := Option.map_eq_some_iff.mp h
  exact ⟨rfl, List.exists_of_findSome?_eq_some hrest⟩

/-- A word is found for itself, as the text begins with no other. -/
theorem findSome?_floatWord? {cs : List Char} (htypes : typeNames ⊆ floatTypes)
    (hword : word ∈ floatWords) (ht : t ∈ "" :: typeNames)
    (h : keyword? (word ++ t) cs = some rest) :
    floatWords.findSome? (floatWord? typeNames cs) = some (word, rest) := by
  have htypes' : "" :: typeNames ⊆ "" :: floatTypes := List.cons_subset_cons "" htypes
  have hself : floatWord? typeNames cs word = some (word, rest) := by
    have hfound : (("" :: typeNames).findSome? fun u => keyword? (word ++ u) cs) = some rest :=
      findSome?_eq_some_of_unique ht h fun u hu behind hbehind =>
        ((isWord_floatWords word hword u (htypes' hu)).unique
          (isWord_floatWords word hword t (htypes' ht)) hbehind h).2
    rw [floatWord?, hfound]
    rfl
  refine findSome?_eq_some_of_unique hword hself ?_
  rintro other hother ⟨_, behind⟩ hfound
  obtain ⟨rfl, u, hu, hkeyword⟩ := floatWord?_eq_some hfound
  obtain ⟨hsame, rfl⟩ := (isWord_floatWords word hword t (htypes' ht)).unique
    (isWord_floatWords _ hother u (htypes' hu)) h hkeyword
  rw [floatWords_apart word hword _ hother t (htypes' ht) u (htypes' hu) hsame]

theorem float?_word {cs : List Char} (htypes : typeNames ⊆ floatTypes) (hword : word ∈ floatWords)
    (ht : t ∈ "" :: typeNames) (h : keyword? (word ++ t) cs = some rest) :
    float? typeNames cs = (Encoding.ofChars? .binary64 word.toList).map fun x => (x, rest) := by
  have hfound := findSome?_floatWord? htypes hword ht h
  unfold floatWord? at hfound
  rw [float?]
  dsimp only
  rw [hfound]

/-- The words that are written stand for infinities and for non-numbers. -/
theorem ofChars?_word (number negative : Bool) :
    ∃ word ∈ floatWords,
      word.toList = signChars negative ++ (if number then "NaN" else "inf").toList ∧
      Encoding.ofChars? .binary64 word.toList = some ⟨negative,
        if number then Format.binary64.notANumber else Format.binary64.infinity⟩ := by
  cases number <;> cases negative
  · exact ⟨"inf", by decide, by decide, by decide⟩
  · exact ⟨"-inf", by decide, by decide, by decide⟩
  · exact ⟨"NaN", by decide, by decide, by decide⟩
  · exact ⟨"-NaN", by decide, by decide, by decide⟩

/-! ## Numerals -/

theorem ungrouped?_eq_some {cs : List Char} (h : '_' ∉ cs) :
    ∀ mayGroup, ungrouped? mayGroup cs = some cs := by
  induction cs with
  | nil => exact fun _ => rfl
  | cons c cs ih =>
    intro mayGroup
    obtain ⟨hfirst, hrest⟩ := not_or.mp (mt List.mem_cons.mpr h)
    rw [ungrouped?, if_neg (Ne.symm hfirst)]
    dsimp only
    rw [ih hrest, Option.map_some]

theorem chars_eq_cons (d : Decimal) : ∃ k < 10, ∃ cs, d.chars = k.digitChar :: cs := by
  let whole := d.digits / 10 ^ d.places
  obtain ⟨c, cs, hwhole⟩ :=
    List.exists_cons_of_ne_nil (Nat.toDigits_ne_nil (b := 10) (n := whole))
  obtain ⟨k, hk, rfl⟩ :=
    Text.exists_digit_of_mem_toDigits (by decide) whole c (hwhole ▸ List.mem_cons_self)
  by_cases h : d.places = 0
  · refine ⟨k, hk, cs, ?_⟩
    rw [← hwhole, Decimal.chars]
    exact if_pos h
  · exact ⟨k, hk, _, by rw [Decimal.chars_of_places h, hwhole]; rfl⟩

/-- A numeral has a digit or the point at its front, behind a sign at most, where no
word has either. -/
theorem findSome?_floatWord?_numeral {sign : List Char} (hsign : sign.length ≤ 1) {c : Char}
    (hc : c.isDigit = true ∨ c = '.') (cs : List Char) :
    floatWords.findSome? (floatWord? typeNames (sign ++ c :: cs)) = none := by
  have hwords : ∀ word ∈ floatWords,
      2 ≤ word.toList.length ∧ word.toList.any (fun c => c.isDigit || c = '.') = false := by decide
  rw [List.findSome?_eq_none_iff]
  intro word hword
  rw [Option.eq_none_iff_forall_ne_some]
  intro found hfound
  obtain ⟨-, t, -, hkeyword⟩ := floatWord?_eq_some hfound
  obtain ⟨htext, -⟩ := keyword?_eq_some_iff.mp hkeyword
  obtain ⟨hlength, hmarks⟩ := hwords word hword
  -- the word would have to hold the digit or the point
  have hfront : sign ++ [c] <+: word.toList := by
    have hgiven : sign ++ [c] <+: sign ++ c :: cs := ⟨cs, by simp⟩
    refine List.prefix_of_prefix_length_le hgiven ?_ ?_
    · rw [htext, String.toList_append, List.append_assoc]
      exact List.prefix_append _ _
    · rw [List.length_append, List.length_singleton]
      omega
  have hmem : c ∈ word.toList := hfront.mem (by simp)
  rw [List.any_eq_false] at hmarks
  exact hmarks c hmem (by simpa using hc)

theorem pattern?_chars {f : Format} (hgrain : f.grain ≤ 2 ^ f.exponentBits) (d : Decimal) :
    Encoding.pattern? f d.chars = some (d.nearest f) := by
  obtain ⟨k, hk, cs, hchars⟩ := chars_eq_cons d
  have hfirst : (d.chars.map Char.toLower).head?.any Char.isDigit = true := by
    rw [hchars]
    exact (by decide : ∀ k < 10, k.digitChar.toLower.isDigit = true) k hk
  have hletters : ∀ word ∈ ["inf", "infinity", "nan"],
      word.toList.head?.any Char.isDigit = false := by decide
  have hword : ∀ word ∈ ["inf", "infinity", "nan"], d.chars.map Char.toLower ≠ word.toList := by
    intro word hword heq
    rw [heq, hletters word hword] at hfirst
    cases hfirst
  rw [Encoding.pattern?, if_neg (not_or.mpr ⟨hword _ (by simp), hword _ (by simp)⟩),
    if_neg (hword _ (by simp))]
  exact Scientific.nearest_ofChars?_chars hgrain d

/-- A numeral is read for the number nearest to it. -/
theorem ofChars?_numeral (negative : Bool) (d : Decimal) :
    Encoding.ofChars? .binary64 (signChars negative ++ d.chars) =
      some ⟨negative, d.nearest .binary64⟩ := by
  have hpattern := pattern?_chars (f := .binary64) (by decide) d
  cases negative
  · obtain ⟨k, hk, cs, hchars⟩ := chars_eq_cons d
    have hsign : k.digitChar ≠ '-' ∧ k.digitChar ≠ '+' :=
      (by decide : ∀ k < 10, k.digitChar ≠ '-' ∧ k.digitChar ≠ '+') k hk
    change Encoding.ofChars? .binary64 d.chars = _
    rw [hchars, Encoding.ofChars?.eq_def]
    split
    · next heq => exact absurd (List.cons_eq_cons.mp heq).1 hsign.1
    · next heq => exact absurd (List.cons_eq_cons.mp heq).1 hsign.2
    · rw [← hchars, hpattern]
      rfl
  · change (Encoding.pattern? .binary64 d.chars).map _ = _
    rw [hpattern]
    rfl

theorem isFloatChar_of_mem {negative : Bool} {d : Decimal} :
    ∀ c ∈ signChars negative ++ d.chars, isFloatChar c = true := by
  intro c hc
  rcases List.mem_append.mp hc with hsign | hchar
  · cases negative
    · cases hsign
    · rw [List.mem_singleton.mp hsign]
      decide
  · rcases Decimal.isDigit_or_of_mem_chars c hchar with hdigit | rfl
    · simp [isFloatChar, hdigit]
    · decide

theorem isFloatChar_of_ends (h : Ends rest) : ∀ c ∈ rest.head?, isFloatChar c = false :=
  h.head?_eq_false (by decide)

/-- A numeral that is no word is read up to where a value may end, with the name of a type
behind it or none. -/
theorem float?_run {run : List Char} {x : Encoding .binary64} (htypes : typeNames ⊆ floatTypes)
    (ht : t ∈ "" :: typeNames)
    (hword : floatWords.findSome? (floatWord? typeNames (run ++ (t.toList ++ rest))) = none)
    (hrun : ∀ c ∈ run, isFloatChar c = true)
    (hvalue : (ungrouped? false run).bind (Encoding.ofChars? .binary64) = some x) (h : Ends rest) :
    float? typeNames (run ++ (t.toList ++ rest)) = some (x, rest) := by
  have hletters : ∀ t ∈ floatTypes, t.toList.head? = some 'f' ∧ IsWord t := by decide
  have hstop : ∀ c ∈ (t.toList ++ rest).head?, isFloatChar c = false := by
    rcases List.mem_cons.mp ht with rfl | ht
    · exact isFloatChar_of_ends h
    · rw [List.head?_append, (hletters t (htypes ht)).1]
      rintro c ⟨⟩
      decide
  have hbehind : ((typeNames.findSome? fun u => keyword? u (t.toList ++ rest)).getD
      (t.toList ++ rest)) = rest := by
    rcases List.mem_cons.mp ht with rfl | ht
    · have hnone : (typeNames.findSome? fun u => keyword? u rest) = none := by
        rw [List.findSome?_eq_none_iff]
        exact fun u hu => keyword?_of_ends (hletters u (htypes hu)).1 (by decide) h
      exact congrArg (·.getD rest) hnone
    · have hself := keyword?_append t h
      rw [findSome?_eq_some_of_unique ht hself fun u hu behind hbehind =>
        ((hletters u (htypes hu)).2.unique (hletters t (htypes ht)).2 hbehind hself).2]
      rfl
  unfold floatWord? at hword
  rw [float?]
  dsimp only
  rw [hword, Text.span_append hrun hstop]
  dsimp only
  rw [hvalue, hbehind]
  rfl

theorem float?_numeral (negative : Bool) (d : Decimal) (h : Ends rest) :
    float? ["f64"] (signChars negative ++ d.chars ++ rest) =
      some (⟨negative, d.nearest .binary64⟩, rest) := by
  let text := signChars negative ++ d.chars
  have hnone : floatWords.findSome? (floatWord? ["f64"] (text ++ rest)) = none := by
    obtain ⟨k, hk, cs, hchars⟩ := chars_eq_cons d
    have htext : text ++ rest = signChars negative ++ k.digitChar :: (cs ++ rest) := by
      simp [text, hchars]
    have hdigit : k.digitChar.isDigit = true :=
      (by decide : ∀ k < 10, k.digitChar.isDigit = true) k hk
    have hsign : (signChars negative).length ≤ 1 := by cases negative <;> decide
    rw [htext]
    exact findSome?_floatWord?_numeral hsign (.inl hdigit) (cs ++ rest)
  have hplain : '_' ∉ text := by
    intro hmark
    rcases List.mem_append.mp hmark with hsign | hchar
    · cases negative
      · cases hsign
      · cases List.mem_singleton.mp hsign
    · rcases Decimal.isDigit_or_of_mem_chars _ hchar with hdigit | hpoint
      · cases hdigit
      · cases hpoint
  refine float?_run (t := "") (by decide) List.mem_cons_self hnone isFloatChar_of_mem ?_ h
  rw [ungrouped?_eq_some hplain, Option.bind_some, ofChars?_numeral]

/-! ## Floats -/

theorem not_isFinite_iff :
    x.isFinite = false ↔ x.isNaN = true ∨ x.pattern = Format.binary64.infinity := by
  simp only [Encoding.isFinite, Encoding.isNaN, decide_eq_false_iff_not, decide_eq_true_eq]
  omega

/-- **A float is read back** where a value may end: the number itself, of a
non-number its sign. -/
theorem float_writeFloat (x : Encoding .binary64) (h : Ends rest) :
    Reader.float (writeFloat x ++ rest) = .ok (x.canonical, rest) := by
  have hread : float? ["f64"] (writeFloat x ++ rest) = some (x.canonical, rest) := by
    cases hfinite : x.isFinite
    · obtain ⟨word, hword, hchars, hvalue⟩ := ofChars?_word x.isNaN x.negative
      -- all patterns of non-numbers are read as one
      have hpattern : x.canonical = ⟨x.negative,
          if x.isNaN then Format.binary64.notANumber else Format.binary64.infinity⟩ := by
        rw [Encoding.canonical]
        split
        · rfl
        · next hnumber => rw [← (not_isFinite_iff.mp hfinite).resolve_left hnumber]
      have hkeyword : keyword? (word ++ "") (word.toList ++ rest) = some rest := by
        rw [String.append_empty]
        exact keyword?_append word h
      rw [writeFloat_of_not_isFinite hfinite, ← hchars,
        float?_word (by decide) hword List.mem_cons_self hkeyword, hvalue, hpattern]
      rfl
    · rw [writeFloat_of_isFinite hfinite, float?_numeral _ _ h, nearest_withPlace,
        Format.nearest_shortest (of_decide_eq_true hfinite), Encoding.canonical,
        isNaN_eq_false_of_isFinite hfinite]
      rfl
  rw [Reader.float, hread]

example : writeFloat ⟨true, 0⟩ = ['-', '0', '.', '0'] := by decide

theorem begins_signChars {cs : List Char} (negative : Bool) (h : Begins ']' cs) :
    Begins ']' (signChars negative ++ cs) := by
  cases negative
  · exact h
  · exact ⟨'-', cs, rfl, by decide, by decide⟩

theorem writeFloat_begins (x : Encoding .binary64) : Begins ']' (writeFloat x) := by
  cases hfinite : x.isFinite
  · rw [writeFloat_of_not_isFinite hfinite]
    refine begins_signChars _ ?_
    split
    · exact ⟨'N', ['a', 'N'], by decide, by decide, by decide⟩
    · exact ⟨'i', ['n', 'f'], by decide, by decide, by decide⟩
  · rw [writeFloat_of_isFinite hfinite]
    obtain ⟨k, hk, cs, hchars⟩ := chars_eq_cons (withPlace (Format.binary64.shortest x.pattern))
    refine begins_signChars _ ⟨_, cs, hchars, ?_⟩
    exact (by decide : ∀ k < 10, Seen k.digitChar ∧ k.digitChar ≠ ']') k hk

/-- A non-number is written by its sign alone. -/
theorem writeFloat_canonical (x : Encoding .binary64) : writeFloat x.canonical = writeFloat x := by
  cases hnumber : x.isNaN
  · rw [Encoding.canonical, hnumber]
    rfl
  · have hsign : x.canonical.negative = x.negative := by rw [Encoding.canonical, if_pos hnumber]
    have hnumber' : x.canonical.isNaN = true := x.isNaN_canonical.trans hnumber
    rw [writeFloat_of_not_isFinite (not_isFinite_iff.mpr (.inl hnumber)),
      writeFloat_of_not_isFinite (not_isFinite_iff.mpr (.inl hnumber')), hnumber, hnumber', hsign]

end PlantGrammar.Ron
