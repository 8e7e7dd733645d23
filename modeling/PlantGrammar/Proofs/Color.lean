import PlantGrammar.Color.Css
import PlantGrammar.Proofs.Text.Hex
import PlantGrammar.Proofs.Text.Runs

/-!
# Colours are read back

A colour is written in the hexadecimal digits of its bytes. They are read as a colour
of the same bytes, which is not the same colour: what a byte does not tell of a
channel is lost.
-/

namespace PlantGrammar.Color

open Text

/-- The colour that the bytes of a colour stand for. -/
def eightBit (c : Color) : Color :=
  ofBytes (byte c.red).toNat (byte c.green).toNat (byte c.blue).toNat (byte c.alpha).toNat

/-! ## Bytes -/

/-- A byte is the byte of its channel. -/
theorem byte_channel (b : UInt8) : byte (channel b.toNat) = b := by
  have hall : ∀ n < 256, byte (channel n) = UInt8.ofNat n := by decide +kernel
  rw [hall b.toNat b.toNat_lt, UInt8.ofNat_toNat]

theorem bytes_eightBit (c : Color) : c.eightBit.bytes = c.bytes := by
  simp only [eightBit, ofBytes, bytes, byte_channel]

theorem chars_eightBit (c : Color) : c.eightBit.chars = c.chars := by
  simp only [eightBit, ofBytes, chars, hexChars, byte_channel]

theorem pair?_digitChar : ∀ {high low : Nat}, high < 16 → low < 16 →
    pair? high.digitChar low.digitChar = some (16 * high + low) := by
  intro high low hhigh hlow
  have hsign : high.digitChar ≠ '+' := (by decide : ∀ d < 16, d.digitChar ≠ '+') high hhigh
  rw [pair?, if_neg hsign, hexDigit?_digitChar hhigh, hexDigit?_digitChar hlow]
  rfl

/-- The byte of its two digits. -/
theorem pair?_byte (b : UInt8) :
    pair? (Nat.digitChar (b.toNat / 16)) (Nat.digitChar (b.toNat % 16)) = some b.toNat := by
  have hbyte : b.toNat < 256 := b.toNat_lt
  rw [pair?_digitChar (by omega) (by omega), Nat.div_add_mod]

/-! ## Texts -/

/-- What holds of the digits holds of those of a byte. -/
theorem forall_mem_hexByte {P : Char → Prop} (h : ∀ d < 16, P d.digitChar) (b : UInt8) :
    ∀ d ∈ hexByte b, P d := by
  have hb : b.toNat < 256 := b.toNat_lt
  rw [hexByte, List.forall_mem_cons, List.forall_mem_singleton]
  exact ⟨h _ (by omega), h _ (by omega)⟩

/-- What holds of the mark and the digits holds of a whole colour. -/
theorem forall_mem_hexChars {P : Char → Prop} (hmark : P '#') (h : ∀ d < 16, P d.digitChar)
    (c : Color) : ∀ d ∈ c.hexChars, P d := by
  have hbyte := forall_mem_hexByte h
  rw [hexChars, List.forall_mem_cons, List.forall_mem_append, List.forall_mem_append]
  exact ⟨hmark, ⟨hbyte _, hbyte _⟩, hbyte _⟩

/-- Behind their mark the digits are read for the bytes. -/
theorem ofHex?_chars (c : Color) :
    ∃ digits, c.chars = '#' :: digits ∧ ofHex? digits = some c.eightBit := by
  by_cases hfull : byte c.alpha = 255
  · refine ⟨_, by rw [chars, if_pos hfull, hexChars], ?_⟩
    simp [hexByte, ofHex?, pair?_byte, eightBit, hfull]
  · refine ⟨hexByte (byte c.red) ++ hexByte (byte c.green) ++ hexByte (byte c.blue) ++
      hexByte (byte c.alpha), by rw [chars, if_neg hfull, hexChars, List.cons_append], ?_⟩
    simp [hexByte, ofHex?, pair?_byte, eightBit]

/-- A colour is written without blanks. -/
theorem isBlank_of_mem_chars {c : Color} : ∀ d ∈ c.chars, isBlank d = false := by
  have hdigit : ∀ d < 16, isBlank d.digitChar = false := by decide
  have hhex := forall_mem_hexChars (P := fun d => isBlank d = false) (by decide) hdigit c
  have hbyte := forall_mem_hexByte (P := fun d => isBlank d = false) hdigit
  intro d hd
  rw [chars] at hd
  split at hd
  · exact hhex d hd
  · exact (List.mem_append.mp hd).elim (hhex d) (hbyte _ d)

/-- Behind the mark of digits only digits are read. -/
theorem ofTrimmed_mark {digits : List Char} {color : Color} (h : ofHex? digits = some color) :
    ofTrimmed ('#' :: digits) = .ok color := by
  have hword : ('#' :: digits).map Char.toLower ≠ "transparent".toList := by
    have hfirst : "transparent".toList.head? = some 't' := by decide
    intro heq
    rw [← heq] at hfirst
    exact absurd hfirst (by simp)
  unfold ofTrimmed
  simp only [hword, if_false, h]

/-- **A colour is read back** from its text, as far as its bytes tell. -/
theorem parse_chars (c : Color) : parse c.chars = .ok c.eightBit := by
  obtain ⟨digits, hchars, hread⟩ := ofHex?_chars c
  rw [parse, trim_eq_self isBlank_of_mem_chars, hchars]
  exact ofTrimmed_mark hread

end PlantGrammar.Color
