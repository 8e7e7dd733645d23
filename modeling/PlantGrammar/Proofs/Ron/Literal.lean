import PlantGrammar.Proofs.Ron.Numeral
import PlantGrammar.Proofs.Ron.Quoted

/-!
# Literals are passed over

Each literal of the grammar is passed over whole where a value may end behind it, and
none is taken for a name.
-/

namespace PlantGrammar.Ron

open Reader Text

variable {text body rest : List Char}

/-! ## Escapes -/

/-- The first byte of a character tells how many follow. -/
theorem utf8Char?_lead {a : Nat} {bytes : List Nat} (h : (utf8Char? (a :: bytes)).isSome = true) :
    bytes.length = 0 ∧ a < 0x80 ∨ bytes.length = 1 ∧ 0xC0 ≤ a ∧ a < 0xE0 ∨
      bytes.length = 2 ∧ 0xE0 ≤ a ∧ a < 0xF0 ∨ bytes.length = 3 ∧ 0xF0 ≤ a ∧ a < 0xF8 := by
  have hguard : ∀ {p : Prop} [Decidable p] {r : Option Char},
      (if p then r else none).isSome = true → p := by
    intro p _ r hsome
    by_contra hnot
    rw [if_neg hnot] at hsome
    cases hsome
  match bytes with
  | [] => exact .inl ⟨rfl, hguard h⟩
  | [b] => exact .inr (.inl ⟨rfl, hguard h⟩)
  | [b, c] => exact .inr (.inr (.inl ⟨rfl, hguard h⟩))
  | [b, c, d] => exact .inr (.inr (.inr ⟨rfl, hguard h⟩))
  | _ :: _ :: _ :: _ :: _ => cases h

/-- No beginning of the bytes of a character is a character. -/
theorem utf8Char?_eq_none {bytes more : List Nat} (hne : bytes ≠ []) (hmore : more ≠ [])
    (h : (utf8Char? (bytes ++ more)).isSome = true) : utf8Char? bytes = none := by
  obtain ⟨a, bytes, rfl⟩ := List.exists_cons_of_ne_nil hne
  rw [← Option.not_isSome_iff_eq_none]
  intro hshort
  rw [List.cons_append] at h
  have hlead := utf8Char?_lead hshort
  have hlead' := utf8Char?_lead h
  have hlength := List.length_pos_of_ne_nil hmore
  rw [List.length_append] at hlead'
  omega

theorem utf8Escape?_of_some {c : Char} {bytes : List Nat} (h : utf8Char? bytes = some c)
    (more : Nat) (cs : List Char) : utf8Escape? more bytes cs = some (c, cs) := by
  cases more with
  | zero => exact congrArg (Option.map _) h
  | succ more =>
    rw [utf8Escape?.eq_def]
    dsimp only
    rw [h]

theorem utf8Escape?_of_none {bytes : List Nat} {high low : Char} {b : Nat}
    (h : utf8Char? bytes = none) (hb : byte? high low = some b) (more : Nat) (cs : List Char) :
    utf8Escape? (more + 1) bytes ('\\' :: 'x' :: high :: low :: cs) =
      utf8Escape? more (bytes ++ [b]) cs := by
  rw [utf8Escape?, h]
  dsimp only
  rw [hb]
  rfl

/-- The bytes of a character are taken up to the last. -/
theorem utf8Escape?_spells {bytes : List Nat} (h : SpellsBytes bytes text) (rest : List Char) :
    ∀ done : List Nat, done ≠ [] → (utf8Char? (done ++ bytes)).isSome = true →
      ∀ more, bytes.length ≤ more → ∃ c,
        utf8Escape? more done ('\\' :: (text ++ rest)) = some (c, rest) := by
  induction h with
  | @single high low b hb =>
    intro done hne hsome more hmore
    obtain ⟨more, rfl⟩ := Nat.exists_eq_add_of_le' (Nat.zero_lt_of_lt hmore)
    obtain ⟨c, hc⟩ := Option.isSome_iff_exists.mp hsome
    have hnone := utf8Char?_eq_none hne (List.cons_ne_nil b []) hsome
    exact ⟨c, (utf8Escape?_of_none hnone hb more rest).trans (utf8Escape?_of_some hc more rest)⟩
  | @cons high low b bytes text hb _ ih =>
    intro done hne hsome more hmore
    obtain ⟨more, rfl⟩ := Nat.exists_eq_add_of_le' (Nat.zero_lt_of_lt hmore)
    obtain ⟨c, hc⟩ := ih (done ++ [b]) (by simp) (by simpa using hsome) more
      (Nat.le_of_succ_le_succ hmore)
    have hnone := utf8Char?_eq_none hne (List.cons_ne_nil b bytes) hsome
    exact ⟨c, (utf8Escape?_of_none hnone hb more _).trans hc⟩

theorem escape?_mark {c : Char} (h : c ∈ escapeMarks) (alone : Bool) (rest : List Char) :
    ∃ d, escape? alone (c :: rest) = some (d, rest) := by
  simp only [escapeMarks, List.mem_cons, List.not_mem_nil, or_false] at h
  rcases h with rfl | rfl | rfl | rfl | rfl | rfl | rfl <;> exact ⟨_, rfl⟩

theorem IsNumberEscape.escape? (h : IsNumberEscape text) (alone : Bool) (rest : List Char) :
    ∃ c, escape? alone (text ++ rest) = some (c, rest) := by
  obtain @⟨digits, n, hlength, hvalue, hvalid⟩ := h
  have htext : 'u' :: '\x7b' :: (digits ++ ['\x7d']) ++ rest =
      'u' :: '\x7b' :: (digits ++ '\x7d' :: rest) := by simp
  rw [htext]
  exact ⟨_, numberEscape?_digits hlength hvalue hvalid rest⟩

theorem escape?_bytes {bytes : List Nat} (h : SpellsBytes bytes text)
    (hbytes : IsCharacter bytes) (rest : List Char) :
    ∃ c, escape? false (text ++ rest) = some (c, rest) := by
  cases h with
  | @single high low b hb =>
    obtain ⟨c, hc⟩ := Option.isSome_iff_exists.mp hbytes
    refine ⟨c, ?_⟩
    change ((byte? high low).bind fun b => utf8Escape? 3 [b] rest) = _
    rw [hb, Option.bind_some, utf8Escape?_of_some hc]
  | @cons high low b bytes text hb hmore =>
    -- the first byte stands alone, the others follow it
    have hlength : bytes.length ≤ 3 := by
      have := utf8Char?_lead hbytes
      omega
    obtain ⟨c, hc⟩ := utf8Escape?_spells hmore rest [b] (List.cons_ne_nil b []) hbytes 3 hlength
    refine ⟨c, ?_⟩
    change ((byte? high low).bind fun b => utf8Escape? 3 [b] ('\\' :: (text ++ rest))) = _
    rw [hb, Option.bind_some, hc]

/-- What an escape in a string spells. -/
theorem IsEscape.escape? (h : IsEscape IsCharacter text) (rest : List Char) :
    ∃ c, escape? false (text ++ rest) = some (c, rest) := by
  cases h with
  | mark h => exact escape?_mark h false rest
  | number h => exact h.escape? false rest
  | bytes hbytes h => exact escape?_bytes h hbytes rest

theorem SpellsBytes.single_of_length {bytes : List Nat} (h : SpellsBytes bytes text)
    (hlength : bytes.length = 1) :
    ∃ high low b, byte? high low = some b ∧ bytes = [b] ∧ text = ['x', high, low] := by
  cases h with
  | single hb => exact ⟨_, _, _, hb, rfl, rfl⟩
  | cons _ hmore => cases hmore <;> cases hlength

/-- What an escape that stands alone spells. -/
theorem IsEscape.escape?_alone (h : IsEscape IsAscii text) (rest : List Char) :
    ∃ c, Ron.escape? true (text ++ rest) = some (c, rest) := by
  cases h with
  | mark h => exact escape?_mark h true rest
  | number h => exact h.escape? true rest
  | bytes hbytes h =>
    obtain ⟨high, low, b, hb, rfl, rfl⟩ := h.single_of_length hbytes.1
    obtain ⟨c, hc⟩ := Option.isSome_iff_exists.mp hbytes.2
    refine ⟨c, ?_⟩
    change ((byte? high low).bind fun b => utf8Escape? 0 [b] rest) = _
    rw [hb, Option.bind_some, utf8Escape?_of_some hc]

/-- What an escape of a byte spells is passed over. -/
theorem IsEscape.byteEscape? (h : IsEscape IsByte text) (rest : List Char) :
    byteEscape? (text ++ rest) = some rest := by
  cases h with
  | @mark c h =>
    have hplain : ∀ high low more, c :: rest ≠ 'x' :: high :: low :: more := by
      rintro high low more heq
      obtain ⟨rfl, -⟩ := List.cons.inj heq
      revert h
      decide
    obtain ⟨d, hd⟩ := escape?_mark h true rest
    rw [List.singleton_append, Ron.byteEscape?, hd]
    · rfl
    · exact hplain
  | number h =>
    obtain ⟨c, hc⟩ := h.escape? true rest
    obtain ⟨_, _, _⟩ := h
    exact congrArg (Option.map (·.2)) hc
  | bytes hbytes h =>
    obtain ⟨high, low, b, hb, rfl, rfl⟩ := h.single_of_length hbytes
    change ((byte? high low).map fun _ => rest) = _
    rw [hb]
    rfl

/-! ## Strings -/

/-- The rest of a string is read up to its mark, where the fuel is long enough. -/
theorem IsBody.readStringWith {isEscape : List Char → Prop}
    {escape : List Char → Option (Char × List Char)} (h : IsBody isEscape body)
    (hescape : ∀ text, isEscape text → ∀ rest, ∃ c, escape (text ++ rest) = some (c, rest))
    (rest : List Char) :
    ∀ fuel done : List Char, body.length < fuel.length → ∃ cs,
      readStringWith escape fuel done (body ++ '"' :: rest) = .ok (cs, rest) := by
  induction h with
  | nil =>
    intro fuel done hfuel
    obtain ⟨f, fuel, rfl⟩ := List.exists_cons_of_length_pos (Nat.zero_lt_of_lt hfuel)
    exact ⟨done.reverse, rfl⟩
  | @char c body hmark hback _ ih =>
    intro fuel done hfuel
    obtain ⟨f, fuel, rfl⟩ := List.exists_cons_of_length_pos (Nat.zero_lt_of_lt hfuel)
    obtain ⟨cs, hcs⟩ := ih fuel (c :: done) (by simpa using hfuel)
    refine ⟨cs, ?_⟩
    rw [List.cons_append, Ron.readStringWith.eq_def]
    simp [hcs]
  | @escape text body htext _ ih =>
    intro fuel done hfuel
    obtain ⟨f, fuel, rfl⟩ := List.exists_cons_of_length_pos (Nat.zero_lt_of_lt hfuel)
    obtain ⟨c, hc⟩ := hescape text htext (body ++ '"' :: rest)
    have hlength : body.length < fuel.length := by
      simp at hfuel
      omega
    obtain ⟨cs, hcs⟩ := ih fuel (c :: done) hlength
    refine ⟨cs, ?_⟩
    rw [List.cons_append, List.append_assoc, Ron.readStringWith.eq_def]
    simp [hc, hcs]

theorem IsBody.string_append (h : IsBody (IsEscape IsCharacter) body) (rest : List Char) :
    ∃ cs, string ('"' :: (body ++ ['"']) ++ rest) = .ok (cs, rest) := by
  have htext : '"' :: (body ++ ['"']) ++ rest = '"' :: (body ++ '"' :: rest) := by simp
  rw [htext]
  exact h.readStringWith (fun _ htext => htext.escape?) rest _ [] (by simp)

theorem IsBody.byteString_append (h : IsBody (IsEscape IsByte) body) (rest : List Char) :
    byteString ('b' :: '"' :: (body ++ ['"']) ++ rest) = .ok ((), rest) := by
  have htext : 'b' :: '"' :: (body ++ ['"']) ++ rest = 'b' :: '"' :: (body ++ '"' :: rest) := by
    simp
  have hskip : ∀ text, IsEscape IsByte text → ∀ rest, ∃ c,
      (byteEscape? (text ++ rest)).map (fun rest => (' ', rest)) = some (c, rest) := by
    intro text htext rest
    rw [htext.byteEscape?]
    exact ⟨' ', rfl⟩
  obtain ⟨cs, hcs⟩ := @IsBody.readStringWith body _ (fun cs =>
    (byteEscape? cs).map fun rest => (' ', rest)) h hskip rest (body ++ '"' :: rest) [] (by simp)
  rw [htext]
  exact congrArg (Except.map _) hcs

/-- A raw string is read up to the mark that its hashes follow. -/
theorem readRawBody_append {hashes : List Char} (hhashes : '"' ∉ hashes)
    (hbody : ¬ '"' :: hashes <:+: body) (rest : List Char) :
    ∀ done : List Char,
      readRawBody hashes done (body ++ '"' :: (hashes ++ rest)) =
        .ok (done.reverse ++ body, rest) := by
  induction body with
  | nil =>
    intro done
    rw [List.nil_append, readRawBody, if_pos rfl, after?_eq_some_iff.mpr rfl, List.append_nil]
  | cons c body ih =>
    intro done
    obtain ⟨hfront, hlater⟩ := not_or.mp (mt List.infix_cons_iff.mpr hbody)
    have hopen : (if c = '"' then after? hashes (body ++ '"' :: (hashes ++ rest)) else none) =
        none := by
      split
      · next hmark =>
        rw [Option.eq_none_iff_forall_ne_some]
        intro behind hafter
        have htext := after?_eq_some_iff.mp hafter
        -- the hashes would have to end before the closing mark
        have hprefix : hashes <+: body := by
          rcases List.append_eq_append_iff.mp htext with ⟨more, hmore, hclose⟩ | ⟨more, hmore, -⟩
          · cases more with
            | nil => exact ⟨[], by rw [hmore, List.append_nil, List.append_nil]⟩
            | cons d more =>
              obtain ⟨rfl, -⟩ := List.cons.inj hclose
              exact absurd (hmore ▸ List.mem_append_right body List.mem_cons_self) hhashes
          · exact ⟨more, hmore.symm⟩
        exact hfront (hmark ▸ List.cons_prefix_cons.mpr ⟨rfl, hprefix⟩)
      · rfl
    rw [List.cons_append, readRawBody, hopen]
    dsimp only
    rw [ih hlater]
    simp

theorem IsRaw.readRaw_append (h : IsRaw text) (rest : List Char) :
    ∃ cs, readRaw (text ++ rest) = .ok (cs, rest) := by
  obtain @⟨count, body, hbody⟩ := h
  let hashes := List.replicate count '#'
  have hhash : ∀ c ∈ hashes, decide (c = '#') = true := by
    intro c hc
    simpa using (List.mem_replicate.mp hc).2
  have hmark : '"' ∉ hashes := fun hc => by cases hhash '"' hc
  have htext : hashes ++ '"' :: (body ++ '"' :: hashes) ++ rest =
      hashes ++ '"' :: (body ++ '"' :: (hashes ++ rest)) := by simp
  have hspan : (hashes ++ '"' :: (body ++ '"' :: (hashes ++ rest))).span (· = '#') =
      (hashes, '"' :: (body ++ '"' :: (hashes ++ rest))) := Text.span_append hhash (by simp)
  refine ⟨body, ?_⟩
  rw [htext, readRaw, hspan]
  exact readRawBody_append hmark hbody rest []

/-! ## Characters -/

theorem char_append {c : Char} (h : c ≠ '\\') (rest : List Char) :
    Reader.char (['\'', c, '\''] ++ rest) = .ok (c, rest) := by
  simp [Reader.char]

theorem IsEscape.char_append (h : IsEscape IsAscii text) (rest : List Char) :
    ∃ c, Reader.char ('\'' :: '\\' :: (text ++ ['\'']) ++ rest) = .ok (c, rest) := by
  obtain ⟨c, hc⟩ := h.escape?_alone ('\'' :: rest)
  have htext : '\'' :: '\\' :: (text ++ ['\'']) ++ rest =
      '\'' :: '\\' :: (text ++ '\'' :: rest) := by simp
  refine ⟨c, ?_⟩
  rw [htext, Reader.char, hc]
  rfl

theorem byte_append {c : Char} (h : c ≠ '\\') (hbyte : c.toNat < 0x80) (rest : List Char) :
    Reader.byte (['b', '\'', c, '\''] ++ rest) = .ok ((), rest) := by
  simp [Reader.byte, hbyte]

theorem IsEscape.byte_append (h : IsEscape IsByte text) (hnumber : ¬ IsNumberEscape text)
    (rest : List Char) :
    Reader.byte ('b' :: '\'' :: '\\' :: (text ++ ['\'']) ++ rest) = .ok ((), rest) := by
  have htext : 'b' :: '\'' :: '\\' :: (text ++ ['\'']) ++ rest =
      'b' :: '\'' :: '\\' :: (text ++ '\'' :: rest) := by simp
  have hplain : ∀ more, text ++ '\'' :: rest ≠ 'u' :: more := by
    rintro more heq
    cases h with
    | mark h =>
      obtain ⟨rfl, -⟩ := List.cons.inj heq
      revert h
      decide
    | number h => exact hnumber h
    | bytes _ h => cases h <;> cases (List.cons.inj heq).1
  rw [htext, Reader.byte, h.byteEscape? ('\'' :: rest)]
  · rfl
  · exact hplain

/-! ## What is no name -/

variable {cs : List Char} {fault : Fault}

theorem identifier_of_head (h : ∀ c ∈ cs.head?, beginsName c = false) :
    identifier cs = .error .malformed := by
  cases cs with
  | nil => rfl
  | cons c cs =>
    rw [identifier.eq_def]
    exact if_pos (by simp [h c rfl])

theorem identifier_of_beginsQuoted (h : beginsQuoted cs = true) :
    identifier cs = .error .malformed := by
  cases cs with
  | nil => rfl
  | cons c cs =>
    rw [identifier.eq_def]
    exact if_pos (by simp [h])

/-- A number begins with a digit, a sign or the point. -/
def beginsNumber (c : Char) : Bool := c.isDigit || c = '+' || c = '-' || c = '.'

theorem beginsName_of_beginsNumber {c : Char} (h : beginsNumber c = true) :
    beginsName c = false := by
  have hdigits : ∀ d < 10, beginsName d.digitChar = false := by decide
  simp only [beginsNumber, Bool.or_eq_true, decide_eq_true_eq] at h
  rcases h with ((hdigit | rfl) | rfl) | rfl
  · obtain ⟨d, hd, rfl⟩ := exists_digitChar_of_isDigit hdigit
    exact hdigits d hd
  all_goals decide

/-- The letters that the words begin with which are values. -/
def wordLetters : List Char := ['t', 'f', 'N', 'i', 'S']

theorem keyword?_eq_none_of_head (h : ∀ c ∈ cs.head?, c ∉ wordLetters) :
    ∀ w ∈ words, keyword? w cs = none := by
  have hletters : ∀ w ∈ words, w.toList.head?.any wordLetters.contains = true := by decide
  intro w hw
  obtain ⟨c, hc, hmem⟩ := Option.any_eq_true _ _ |>.mp (hletters w hw)
  exact keyword?_of_head? hc fun hhead => h c hhead (List.contains_iff_mem.mp hmem)

/-- Where no word is found, neither is a value nor an optional value. -/
theorem findSome?_words (h : ∀ w ∈ words, keyword? w cs = none) :
    valueWords.findSome? (keyword? · cs) = none ∧ keyword? "Some" cs = none :=
  ⟨List.findSome?_eq_none_iff.mpr fun w hw => h w (List.mem_cons_of_mem _ hw),
    h "Some" List.mem_cons_self⟩

/-- What is read of a value that begins neither with a word nor with a name: its first
characters tell its kind. -/
def unnamedWith (visit : Option (Bool → Reader Unit)) (item : Option (Reader Unit)) :
    Reader Unit := fun cs =>
  match cs with
  | '(' :: rest => parenthesised visit item rest
  | '[' :: rest => enclosed ']' visit (orTooDeep item) rest
  | '\x7b' :: rest => enclosed '\x7d' visit (entry (orTooDeep item) (orTooDeep item)) rest
  | '"' :: _ | 'r' :: _ => (string cs).map fun r => ((), r.2)
  | 'b' :: '\'' :: _ => byte cs
  | 'b' :: _ => byteString cs
  | '\'' :: _ => (char cs).map fun r => ((), r.2)
  | c :: _ => if beginsNumber c then anyNumber cs else .error .malformed
  | [] => .error .malformed

variable {d : Dialect} {visit : Option (Bool → Reader Unit)} {item : Option (Reader Unit)}

theorem valueWith_of_not_name (h : ∀ c ∈ cs.head?, c ∉ wordLetters)
    (hunit : after? ['(', ')'] cs = none) (hname : identifier cs = .error fault) :
    valueWith d visit item cs = unnamedWith visit item cs := by
  obtain ⟨hwords, hsome⟩ := findSome?_words (keyword?_eq_none_of_head h)
  rw [valueWith.eq_def, hwords, hsome, hunit]
  dsimp only
  rw [hname]
  rfl

theorem unnamedWith_of_beginsNumber {c : Char} (h : beginsNumber c = true) (cs : List Char) :
    unnamedWith visit item (c :: cs) = anyNumber (c :: cs) := by
  have hother : ∀ d, beginsNumber d = false → c ≠ d := by
    rintro d hd rfl
    rw [hd] at h
    cases h
  rw [unnamedWith.eq_def]
  split
  all_goals first
    | next heq => exact absurd (List.cons.inj heq).1 (hother _ (by decide))
    | skip
  · next heq =>
    obtain ⟨rfl, rfl⟩ := List.cons.inj heq
    exact if_pos h
  · next heq => cases heq

/-! ## Literals -/

theorem IsSign.exists_cons {negative : Bool} {sign : List Char} (h : IsSign negative sign)
    {c : Char} (hc : beginsNumber c = true) (cs : List Char) :
    ∃ first more, sign ++ c :: cs = first :: more ∧ beginsNumber first = true := by
  cases h with
  | absent => exact ⟨c, cs, rfl, hc⟩
  | plus => exact ⟨'+', c :: cs, rfl, by decide⟩
  | minus => exact ⟨'-', c :: cs, rfl, by decide⟩

theorem beginsNumber_of_isDigit {c : Char} (h : c.isDigit = true) : beginsNumber c = true := by
  simp [beginsNumber, h]

theorem IsInteger.exists_cons (h : IsInteger text) :
    ∃ c more, text = c :: more ∧ beginsNumber c = true := by
  cases h with
  | based hsign hmark _ _ =>
    have hzero : beginsNumber '0' = true := by decide
    cases hmark <;> exact hsign.exists_cons hzero _
  | typed hsign hmark hdigits _ _ =>
    cases hmark with
    | decimal =>
      obtain ⟨c, more, rfl, hc⟩ := hdigits.exists_cons
      exact hsign.exists_cons (beginsNumber_of_isDigit (isDigit_of_isDigitOf hc)) _
    | binary => exact hsign.exists_cons (by decide) _

theorem IsFloat.exists_cons (h : IsFloat text) :
    ∃ c more, text = c :: more ∧ beginsNumber c = true := by
  cases h with
  | numeral hsign hmantissa _ _ =>
    obtain ⟨c, more, rfl, hc⟩ := hmantissa.exists_cons
    have hc' : beginsNumber c = true := by
      rcases hc with hdigit | rfl
      · exact beginsNumber_of_isDigit hdigit
      · decide
    rw [List.append_assoc]
    exact hsign.exists_cons hc' _
  | word hword _ =>
    simp only [List.mem_cons, List.not_mem_nil, or_false] at hword
    rcases hword with rfl | rfl | rfl | rfl <;> exact ⟨_, _, rfl, by decide⟩

/-- A raw string has its mark behind its hashes. -/
theorem IsRaw.cases_head (h : IsRaw text) : ∃ more,
    text = '"' :: more ∨ text = '#' :: '"' :: more ∨ text = '#' :: '#' :: more := by
  obtain @⟨count, body, -⟩ := h
  match count with
  | 0 => exact ⟨_, .inl rfl⟩
  | 1 => exact ⟨_, .inr (.inl rfl)⟩
  | count + 2 => exact ⟨_, .inr (.inr rfl)⟩

/-- No literal is taken for a name. -/
theorem IsLiteral.identifier_append (h : IsLiteral text) (rest : List Char) :
    identifier (text ++ rest) = .error .malformed := by
  have hnumber : (∃ c more, text = c :: more ∧ beginsNumber c = true) →
      identifier (text ++ rest) = .error .malformed := by
    rintro ⟨c, more, rfl, hc⟩
    exact identifier_of_head fun d hd => Option.some.inj hd ▸ beginsName_of_beginsNumber hc
  have hmark : ∀ mark more, beginsName mark = false →
      identifier (mark :: more) = .error .malformed :=
    fun mark more hmark => identifier_of_head fun d hd => Option.some.inj hd ▸ hmark
  cases h with
  | unit => exact hmark '(' _ (by decide)
  | integer h => exact hnumber h.exists_cons
  | float h => exact hnumber h.exists_cons
  | string _ => exact hmark '"' _ (by decide)
  | rawString h =>
    obtain ⟨more, rfl | rfl | rfl⟩ := h.cases_head <;> exact identifier_of_beginsQuoted rfl
  | byteString _ => exact identifier_of_beginsQuoted rfl
  | rawByteString h =>
    obtain ⟨more, rfl | rfl | rfl⟩ := h.cases_head <;> exact identifier_of_beginsQuoted rfl
  | char _ => exact hmark '\'' _ (by decide)
  | escapedChar _ => exact hmark '\'' _ (by decide)
  | byte _ _ => exact identifier_of_beginsQuoted rfl
  | escapedByte _ _ => exact identifier_of_beginsQuoted rfl

/-- The characters that a literal may begin with. -/
def beginsLiteral (c : Char) : Bool := beginsNumber c || ['(', '"', '\'', 'r', 'b'].contains c

theorem IsLiteral.exists_cons (h : IsLiteral text) :
    ∃ c more, text = c :: more ∧ beginsLiteral c = true := by
  have hnumber : (∃ c more, text = c :: more ∧ beginsNumber c = true) →
      ∃ c more, text = c :: more ∧ beginsLiteral c = true := by
    rintro ⟨c, more, rfl, hc⟩
    exact ⟨c, more, rfl, by simp [beginsLiteral, hc]⟩
  cases h with
  | integer h => exact hnumber h.exists_cons
  | float h => exact hnumber h.exists_cons
  | _ => exact ⟨_, _, rfl, by decide⟩

/-- No character of another kind begins a literal. -/
theorem IsLiteral.head_not_mem (h : IsLiteral text) {marks : List Char}
    (hmarks : marks.any beginsLiteral = false) : ∀ c ∈ text.head?, c ∉ marks := by
  obtain ⟨c, more, rfl, hc⟩ := h.exists_cons
  rintro d ⟨⟩ hmem
  exact List.any_eq_false.mp hmarks c hmem hc

theorem IsLiteral.starts (h : IsLiteral text) : Starts text := by
  have hstops := h.head_not_mem (by decide : stops.any beginsLiteral = false)
  obtain ⟨c, more, rfl, -⟩ := h.exists_cons
  exact starts_cons (hstops c rfl) more

theorem after?_unit_of_head (h : cs.head? ≠ some '(') : after? ['(', ')'] cs = none := by
  cases cs with
  | nil => rfl
  | cons c cs => exact if_neg fun heq => h (congrArg some heq.symm)

/-- Of the literals the unit alone begins with a parenthesis. -/
theorem IsLiteral.head_ne_paren (h : IsLiteral text) (hunit : text ≠ ['(', ')'])
    (rest : List Char) : (text ++ rest).head? ≠ some '(' := by
  have hdigits : (∃ c more, text = c :: more ∧ beginsNumber c = true) →
      (text ++ rest).head? ≠ some '(' := by
    rintro ⟨c, more, rfl, hc⟩ ⟨⟩
    revert hc
    decide
  cases h with
  | unit => exact absurd rfl hunit
  | integer h => exact hdigits h.exists_cons
  | float h => exact hdigits h.exists_cons
  | _ => rintro ⟨⟩

/-- What is read is passed over. -/
theorem map_forget {α : Type} {r : Reader α} (h : ∃ a, r cs = .ok (a, rest)) :
    (r cs).map (fun read => ((), read.2)) = .ok ((), rest) := by
  obtain ⟨a, ha⟩ := h
  rw [ha]
  rfl

/-- The first characters of a literal tell its kind, which is then read whole. -/
theorem IsLiteral.unnamedWith_append (h : IsLiteral text) (hunit : text ≠ ['(', ')'])
    (hrest : Ends rest) : unnamedWith visit item (text ++ rest) = .ok ((), rest) := by
  have hdigits : (∃ c more, text = c :: more ∧ beginsNumber c = true) →
      anyNumber (text ++ rest) = .ok ((), rest) →
      unnamedWith visit item (text ++ rest) = .ok ((), rest) := by
    rintro ⟨c, more, rfl, hc⟩ hread
    rw [List.cons_append, unnamedWith_of_beginsNumber hc]
    exact hread
  cases h with
  | unit => exact absurd rfl hunit
  | integer h => exact hdigits h.exists_cons (h.anyNumber_append hrest)
  | float h => exact hdigits h.exists_cons (h.anyNumber_append hrest)
  | string hbody => exact map_forget (hbody.string_append rest)
  | rawString hraw => exact map_forget (hraw.readRaw_append rest)
  | byteString hbody => exact hbody.byteString_append rest
  | rawByteString hraw => exact map_forget (hraw.readRaw_append rest)
  | char h => exact map_forget ⟨_, char_append h rest⟩
  | escapedChar h => exact map_forget (h.char_append rest)
  | byte h hbyte => exact byte_append h hbyte rest
  | escapedByte h hnumber => exact h.byte_append hnumber rest

/-- **Literals are passed over** where a value may end behind them. -/
theorem IsLiteral.valueWith_append (h : IsLiteral text) (hrest : Ends rest) :
    valueWith d visit item (text ++ rest) = .ok ((), rest) := by
  have hwords : ∀ c ∈ (text ++ rest).head?, c ∉ wordLetters := by
    have hhead := h.head_not_mem (by decide : wordLetters.any beginsLiteral = false)
    obtain ⟨c, more, rfl, -⟩ := h.exists_cons
    exact hhead
  by_cases hunit : text = ['(', ')']
  · subst hunit
    obtain ⟨hvalue, hsome⟩ := findSome?_words (keyword?_eq_none_of_head hwords)
    rw [valueWith.eq_def, hvalue, hsome]
    rfl
  · have hparen := after?_unit_of_head (h.head_ne_paren hunit rest)
    rw [valueWith_of_not_name hwords hparen (h.identifier_append rest)]
    exact h.unnamedWith_append hunit hrest

end PlantGrammar.Ron
