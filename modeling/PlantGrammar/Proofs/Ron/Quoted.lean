import PlantGrammar.Proofs.Ron.Grammar
import PlantGrammar.Proofs.Ron.Reader
import PlantGrammar.Proofs.Text.Hex
import PlantGrammar.Ron.Quoted

/-!
# Strings and characters are read back

A string spells out some of its characters and a character alone fewer. Whatever
is written of one is read as that one, so a string is read back character by
character, up to the mark that closes it.
-/

namespace PlantGrammar.Ron

open Text

/-! ## Escapes -/

/-- A character by its number, in any digits. -/
theorem numberEscape?_digits {digits : List Char} {n : Nat}
    (hlength : 1 ≤ digits.length ∧ digits.length ≤ 6) (hvalue : hexValue? digits = some n)
    (hvalid : n.isValidChar) (rest : List Char) :
    numberEscape? ('\x7b' :: (digits ++ '\x7d' :: rest)) = some (Char.ofNatAux n hvalid, rest) := by
  have hbrace : ∀ c ∈ digits, decide (c ≠ '\x7d') = true := by
    intro c hc
    have hdigit := isSome_hexDigit? (Option.isSome_of_eq_some hvalue) c hc
    rw [decide_eq_true_eq]
    rintro rfl
    cases hdigit
  have hspan : (digits ++ '\x7d' :: rest).span (· ≠ '\x7d') = (digits, '\x7d' :: rest) :=
    Text.span_append hbrace (by simp)
  rw [numberEscape?, hspan]
  dsimp only
  rw [if_neg (by omega), hvalue]
  exact dif_pos hvalid

/-- The number of a character takes up to six digits. -/
theorem length_hexChars (c : Char) :
    1 ≤ (hexChars c.toNat).length ∧ (hexChars c.toNat).length ≤ 6 := by
  have hvalid : c.toNat.isValidChar := c.valid
  have hsmall : c.toNat < 16 ^ 6 := by
    rcases hvalid with hlow | ⟨-, hhigh⟩
    · omega
    · omega
  exact ⟨Nat.length_toDigits_pos, (Nat.length_toDigits_le_iff (by decide) (by decide)).mpr hsmall⟩

/-- A character by its number. -/
theorem numberEscape?_hexChars (c : Char) (rest : List Char) :
    numberEscape? ('\x7b' :: (hexChars c.toNat ++ '\x7d' :: rest)) = some (c, rest) :=
  numberEscape?_digits (length_hexChars c) (hexValue?_hexChars c.toNat) c.valid rest

theorem isNumberEscape_hexChars (c : Char) :
    IsNumberEscape ('u' :: '\x7b' :: (hexChars c.toNat ++ ['\x7d'])) :=
  .intro (length_hexChars c) (hexValue?_hexChars c.toNat) c.valid

/-- A character of a string stands for itself, or an escape of the grammar stands for it
behind a backslash. -/
theorem escapeInString_cases (c : Char) :
    (escapeInString c = [c] ∧ c ≠ '"' ∧ c ≠ '\\') ∨
      ∃ spelled, escapeInString c = '\\' :: spelled ∧ IsEscape IsCharacter spelled ∧
        ∀ rest, escape? false (spelled ++ rest) = some (c, rest) := by
  unfold escapeInString
  split
  iterate 7 exact .inr ⟨_, rfl, .mark (by decide), fun _ => rfl⟩
  next hmark hback =>
  split
  · refine .inr ⟨_, rfl, .number (isNumberEscape_hexChars c), fun rest => ?_⟩
    have hnumber := numberEscape?_hexChars c rest
    simpa [escape?] using hnumber
  · exact .inl ⟨rfl, hmark, hback⟩

theorem escapeInString_ne_nil (c : Char) : escapeInString c ≠ [] := by
  obtain ⟨hself, -⟩ | ⟨spelled, hspelled, -⟩ := escapeInString_cases c
  · simp [hself]
  · simp [hspelled]

/-! ## Strings -/

/-- The rest of a string, where the fuel is long enough. -/
theorem readStringWith_escapeInString (cs rest : List Char) :
    ∀ fuel done : List Char, cs.length < fuel.length →
      readStringWith (escape? false) fuel done (cs.flatMap escapeInString ++ '"' :: rest) =
        .ok (done.reverse ++ cs, rest) := by
  induction cs with
  | nil =>
    intro fuel done hfuel
    obtain ⟨f, fuel, rfl⟩ := List.exists_cons_of_length_pos (Nat.zero_lt_of_lt hfuel)
    simp [readStringWith]
  | cons c cs ih =>
    intro fuel done hfuel
    obtain ⟨f, fuel, rfl⟩ := List.exists_cons_of_length_pos (Nat.zero_lt_of_lt hfuel)
    have hrest := ih fuel (c :: done) (by simpa using hfuel)
    rw [List.flatMap_cons, List.append_assoc]
    obtain ⟨hself, hmark, hback⟩ | ⟨spelled, hspelled, -, hescape⟩ := escapeInString_cases c
    · rw [hself, readStringWith.eq_def]
      simp [hrest]
    · rw [hspelled, readStringWith.eq_def]
      simp [hescape, hrest]

/-- A string is read back, whatever follows it. -/
theorem string_writeString (cs rest : List Char) :
    Reader.string (writeString cs ++ rest) = .ok (cs, rest) := by
  have hlength : cs.length < (cs.flatMap escapeInString ++ '"' :: rest).length := by
    have hpieces : cs.length ≤ (cs.flatMap escapeInString).length :=
      Reader.length_le_flatMap escapeInString_ne_nil
    rw [List.length_append, List.length_cons]
    omega
  have hread := readStringWith_escapeInString cs rest _ [] hlength
  simpa [writeString, Reader.string, List.append_assoc] using hread

/-! ## Characters -/

theorem writeChar_begins (c : Char) : Reader.Begins ']' (writeChar c) := by
  rw [writeChar]
  split <;> exact ⟨'\'', _, rfl, by decide, by decide⟩

/-- A character is read back, whatever follows it. -/
theorem char_writeChar (c : Char) (rest : List Char) :
    Reader.char (writeChar c ++ rest) = .ok (c, rest) := by
  rw [writeChar]
  split
  · next hguarded =>
    rcases hguarded with rfl | rfl <;> rfl
  · next hplain =>
    have hback : c ≠ '\\' := fun heq => hplain (.inr heq)
    simp [Reader.char]

end PlantGrammar.Ron
