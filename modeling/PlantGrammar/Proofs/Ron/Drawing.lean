import PlantGrammar.Proofs.Color
import PlantGrammar.Proofs.Numeric.Machine
import PlantGrammar.Proofs.Ron.Enumeration
import PlantGrammar.Proofs.Ron.Float
import PlantGrammar.Proofs.Ron.Schema

/-!
# Parameters and drawings are read back

A text tells a float up to the payload of a non-number and a colour by its bytes, and
everything else in full. So parameters and drawing commands are read back as
`Parameters.told` and `Command.told` of them, which agree with them field by field and
are written in the same text.
-/

namespace PlantGrammar

open Numeric Ron Reader

/-! ## What a text tells -/

/-- The same number, or two that are no numbers. -/
def Numeric.Encoding.Agrees {f : Format} (x y : Encoding f) : Prop :=
  y = x ∨ x.isNaN = true ∧ y.isNaN = true

theorem Numeric.Encoding.agrees_canonical (x : Encoding .binary64) : x.Agrees x.canonical := by
  cases h : x.isNaN
  · rw [canonical, h]
    exact .inl rfl
  · exact .inr ⟨h, x.isNaN_canonical.trans h⟩

namespace Parameters

/-- Parameters with the same numbers, and with colours of the same bytes. -/
structure Agrees (p q : Parameters (Encoding .binary64)) : Prop where
  iterations : q.iterations = p.iterations
  branchLength : p.branchLength.Agrees q.branchLength
  branchWidth : p.branchWidth.Agrees q.branchWidth
  branchAngle : p.branchAngle.Agrees q.branchAngle
  branchColor : q.branchColor.bytes = p.branchColor.bytes
  branchFalloff : p.branchFalloff.Agrees q.branchFalloff
  leafLength : p.leafLength.Agrees q.leafLength
  leafWidth : p.leafWidth.Agrees q.leafWidth
  leafColor : q.leafColor.bytes = p.leafColor.bytes
  leafAlpha : p.leafAlpha.Agrees q.leafAlpha

/-- The parameters as a text tells them. -/
def told (p : Parameters (Encoding .binary64)) : Parameters (Encoding .binary64) :=
  { p.map Encoding.canonical with
    branchColor := p.branchColor.eightBit
    leafColor := p.leafColor.eightBit }

theorem agrees_told (p : Parameters (Encoding .binary64)) : p.Agrees p.told where
  iterations := rfl
  branchLength := p.branchLength.agrees_canonical
  branchWidth := p.branchWidth.agrees_canonical
  branchAngle := p.branchAngle.agrees_canonical
  branchColor := p.branchColor.bytes_eightBit
  branchFalloff := p.branchFalloff.agrees_canonical
  leafLength := p.leafLength.agrees_canonical
  leafWidth := p.leafWidth.agrees_canonical
  leafColor := p.leafColor.bytes_eightBit
  leafAlpha := p.leafAlpha.agrees_canonical

end Parameters

namespace Command

/-- The same command with the same numbers, and with a colour of the same bytes. -/
inductive Agrees : Command (Encoding .binary64) → Command (Encoding .binary64) → Prop
  | branch {width width' length length' : Encoding .binary64} {color color' : Color}
      (hwidth : width.Agrees width') (hlength : length.Agrees length')
      (hcolor : color'.bytes = color.bytes) :
      Agrees (.branch width length color) (.branch width' length' color')
  | rotate {radians radians' : Encoding .binary64} (h : radians.Agrees radians') :
      Agrees (.rotate radians) (.rotate radians')
  | push : Agrees .push .push
  | pop : Agrees .pop .pop
  | leaf {width width' length length' alpha alpha' : Encoding .binary64} {color color' : Color}
      (hwidth : width.Agrees width') (hlength : length.Agrees length')
      (hcolor : color'.bytes = color.bytes) (halpha : alpha.Agrees alpha') :
      Agrees (.leaf width length color alpha) (.leaf width' length' color' alpha')

/-- The command as a text tells it. -/
def told : Command (Encoding .binary64) → Command (Encoding .binary64)
  | branch width length color => .branch width.canonical length.canonical color.eightBit
  | rotate radians => .rotate radians.canonical
  | push => .push
  | pop => .pop
  | leaf width length color alpha =>
    .leaf width.canonical length.canonical color.eightBit alpha.canonical

theorem agrees_told (c : Command (Encoding .binary64)) : c.Agrees c.told := by
  cases c with
  | branch width length color =>
    exact .branch width.agrees_canonical length.agrees_canonical color.bytes_eightBit
  | rotate radians => exact .rotate radians.agrees_canonical
  | push => exact .push
  | pop => exact .pop
  | leaf width length color alpha =>
    exact .leaf width.agrees_canonical length.agrees_canonical color.bytes_eightBit
      alpha.agrees_canonical

end Command

/-! ## Codecs -/

namespace Ron.Codec

/-- The fields of a branch as a text tells them. -/
def BranchData.told (b : BranchData) : BranchData :=
  ⟨b.width.canonical, b.length.canonical, b.color.eightBit⟩

/-- The fields of a leaf as a text tells them. -/
def LeafData.told (l : LeafData) : LeafData :=
  ⟨l.width.canonical, l.length.canonical, l.color.eightBit, l.alpha.canonical⟩

theorem float_readsBack : float.ReadsBack 0 Encoding.canonical where
  begins _ x := writeFloat_begins x
  read _ _ x _ _ hrest := float_writeFloat x hrest

theorem color_readsBack : color.ReadsBack 0 Color.eightBit where
  begins _ c := ⟨'"', _, rfl, by decide, by decide⟩
  read _ _ c rest _ _ := by
    rw [color]
    dsimp only
    rw [bind_ok (string_writeString c.chars rest), Color.parse_chars]
    rfl

theorem parameters_readsBack : parameters.ReadsBack 2 Parameters.told := by
  refine Record.codec_readsBack ⟨by decide, by decide⟩ fun p => ?_
  exact .cons (uint32_readsBack.field _ _ _ _ _) (.cons (float_readsBack.field _ _ _ _ _)
    (.cons (float_readsBack.field _ _ _ _ _) (.cons (float_readsBack.field _ _ _ _ _)
    (.cons (color_readsBack.field _ _ _ _ _) (.cons (float_readsBack.field _ _ _ _ _)
    (.cons (float_readsBack.field _ _ _ _ _) (.cons (float_readsBack.field _ _ _ _ _)
    (.cons (color_readsBack.field _ _ _ _ _) (.cons (float_readsBack.field _ _ _ _ _)
    (.nil _))))))))))

theorem branchRecord_rebuilds (b : BranchData) :
    Field.Rebuilds 0 b branchRecord.fields branchRecord.initial b.told :=
  .cons (float_readsBack.field _ _ _ _ _) (.cons (float_readsBack.field _ _ _ _ _)
    (.cons (color_readsBack.field _ _ _ _ _) (.nil _)))

theorem leafRecord_rebuilds (l : LeafData) :
    Field.Rebuilds 0 l leafRecord.fields leafRecord.initial l.told :=
  .cons (float_readsBack.field _ _ _ _ _) (.cons (float_readsBack.field _ _ _ _ _)
    (.cons (color_readsBack.field _ _ _ _ _) (.cons (float_readsBack.field _ _ _ _ _) (.nil _))))

theorem command_readsBack : command.ReadsBack 3 Command.told := by
  have hbranch : branchRecord.WellNamed := ⟨by decide, by decide⟩
  have hleaf : leafRecord.WellNamed := ⟨by decide, by decide⟩
  refine enumeration_readsBack (by decide) (by decide) fun level c => ?_
  cases c with
  | branch width length color =>
    exact ⟨_, .head _, _, rfl,
      Variant.fields_readsAs hbranch (branchRecord_rebuilds ⟨width, length, color⟩) _ level⟩
  | rotate radians =>
    exact ⟨_, .tail _ (.head _), _, rfl,
      (Variant.single_readsAs float_readsBack _ _ level radians).mono (by decide)⟩
  | push =>
    exact ⟨_, .tail _ (.tail _ (.head _)), [], (List.append_nil _).symm,
      (Variant.plain_readsAs _ _).mono (by decide)⟩
  | pop =>
    exact ⟨_, .tail _ (.tail _ (.tail _ (.head _))), [], (List.append_nil _).symm,
      (Variant.plain_readsAs _ _).mono (by decide)⟩
  | leaf width length color alpha =>
    exact ⟨_, .tail _ (.tail _ (.tail _ (.tail _ (.head _)))), _, rfl,
      Variant.fields_readsAs hleaf (leafRecord_rebuilds ⟨width, length, color, alpha⟩) _ level⟩

theorem commands_readsBack : commands.ReadsBack 5 (List.map Command.told) :=
  command_readsBack.list

/-! ## Writing again -/

theorem write_parameters_told (level : Nat) (p : Parameters (Encoding .binary64)) :
    parameters.write level p.told = parameters.write level p := by
  simp only [parameters, parametersRecord, Record.codec, Record.write, List.map_cons, List.map_nil,
    Field.of, float, color, uint32, Parameters.told, Parameters.map, writeFloat_canonical,
    Color.chars_eightBit]

theorem write_branchRecord_told (level : Nat) (b : BranchData) :
    branchRecord.write level b.told = branchRecord.write level b := by
  simp only [BranchData.told, branchRecord, Record.write, List.map_cons, List.map_nil, Field.of,
    float, color, writeFloat_canonical, Color.chars_eightBit]

theorem write_leafRecord_told (level : Nat) (l : LeafData) :
    leafRecord.write level l.told = leafRecord.write level l := by
  simp only [LeafData.told, leafRecord, Record.write, List.map_cons, List.map_nil, Field.of,
    float, color, writeFloat_canonical, Color.chars_eightBit]

theorem writeCommand_told (level : Nat) (c : Command (Encoding .binary64)) :
    writeCommand level c.told = writeCommand level c := by
  cases c with
  | branch width length color =>
    exact congrArg ("DrawBranch".toList ++ ·) (write_branchRecord_told level ⟨width, length, color⟩)
  | rotate radians =>
    exact congrArg (fun text => "Rotate".toList ++ '(' :: (text ++ [')']))
      (writeFloat_canonical radians)
  | push => rfl
  | pop => rfl
  | leaf width length color alpha =>
    exact congrArg ("DrawLeaf".toList ++ ·)
      (write_leafRecord_told level ⟨width, length, color, alpha⟩)

/-- Lists are written in the same text again if their items are. -/
theorem write_list_map {α : Type} {c : Codec α} {kept : α → α}
    (h : ∀ level a, c.write level (kept a) = c.write level a) (level : Nat) (xs : List α) :
    (list c).write level (xs.map kept) = (list c).write level xs := by
  cases xs with
  | nil => rfl
  | cons x xs =>
    have hlines : ((x :: xs).map kept).map (c.write (level + 1)) =
        (x :: xs).map (c.write (level + 1)) := by
      rw [List.map_map]
      exact List.map_congr_left fun a _ => h (level + 1) a
    exact congrArg (writeLines level '[' ']') hlines

theorem write_commands_told (level : Nat) (cs : List (Command (Encoding .binary64))) :
    commands.write level (cs.map Command.told) = commands.write level cs :=
  write_list_map writeCommand_told level cs

end Ron.Codec

namespace Storage

/-! ## Whole texts -/

/-- **Parameters and drawings are read back**: whatever the numbers are, with the same
generations, commands and numbers, where a non-number stays one, and with colours of
the same bytes; and what is read is written in the same text again. -/
theorem ofText_textOf_drawing :
    (∀ p : Parameters (Encoding .binary64), ∃ q,
      ofText Codec.parameters (textOf Codec.parameters p) = .ok q ∧ p.Agrees q ∧
        textOf Codec.parameters q = textOf Codec.parameters p) ∧
    ∀ cs : List (Command (Encoding .binary64)), ∃ ds,
      ofText Codec.commands (textOf Codec.commands cs) = .ok ds ∧
        List.Forall₂ Command.Agrees cs ds ∧
        textOf Codec.commands ds = textOf Codec.commands cs := by
  constructor
  · intro p
    have hparen : some '(' ≠ some '#' := by decide
    refine ⟨p.told, ofText_textOf Codec.parameters_readsBack (by decide) hparen, p.agrees_told, ?_⟩
    exact congrArg String.ofList (Codec.write_parameters_told 0 p)
  · intro cs
    have hbracket : (Codec.commands.encode cs).head? ≠ some '#' := by
      have hmark : some '[' ≠ some '#' := by decide
      cases cs <;> exact hmark
    refine ⟨cs.map Command.told,
      ofText_textOf Codec.commands_readsBack (by decide) hbracket, ?_, ?_⟩
    · rw [List.forall₂_map_right_iff]
      exact List.forall₂_same.mpr fun c _ => c.agrees_told
    · exact congrArg String.ofList (Codec.write_commands_told 0 cs)

/-- The numbers of a plant's parameters are read back as they are. -/
theorem ofText_textOf_parameters (p : Parameters Float) :
    (ofText Codec.parameters (textOf Codec.parameters (p.map .ofFloat))).map
        (Parameters.map Encoding.toFloat) =
      .ok { p with
        branchColor := p.branchColor.eightBit
        leafColor := p.leafColor.eightBit } := by
  have hparen : some '(' ≠ some '#' := by decide
  rw [ofText_textOf Codec.parameters_readsBack (by decide) hparen]
  simp only [Except.map, Parameters.told, Parameters.map, Encoding.canonical_ofFloat,
    Encoding.toFloat_ofFloat]

end Storage

end PlantGrammar
