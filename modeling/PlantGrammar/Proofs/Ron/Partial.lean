import PlantGrammar.Proofs.Ron.Drawing
import PlantGrammar.Proofs.Ron.Refusal
import PlantGrammar.Proofs.Ron.Written

/-!
# Texts that leave fields out

A text of parameters may leave fields out, and may have others that parameters do not
know: it lays the fields that it lists over the standard ones. A text of any other record
needs every field. No text may list a field twice.
-/

namespace PlantGrammar

open Numeric Ron Reader

/-! ## The fields of parameters -/

namespace Parameters

/-- What a field of parameters holds. -/
inductive Datum where
  | count (n : UInt32)
  | number (x : Encoding .binary64)
  | color (c : Color)

namespace Datum

/-- The same datum, as far as a text tells it. -/
inductive Agrees : Datum → Datum → Prop
  | count (n : UInt32) : Agrees (.count n) (.count n)
  | number {x y : Encoding .binary64} (h : x.Agrees y) : Agrees (.number x) (.number y)
  | color {c d : Color} (h : d.bytes = c.bytes) : Agrees (.color c) (.color d)

/-- The written form of a datum. -/
def written : Datum → List Char
  | count n => writeNatural n.toNat
  | number x => writeFloat x
  | color c => writeString c.chars

/-- The written form is a value of the grammar. -/
theorem isValue_written (d : Datum) : IsValue 0 d.written := by
  cases d with
  | count n => exact isValue_writeNatural n.toNat
  | number x => exact isValue_writeFloat x
  | color c => exact isValue_writeString c.chars

end Datum

/-- The fields of parameters. -/
inductive Slot where
  | iterations
  | branchLength
  | branchWidth
  | branchAngle
  | branchColor
  | branchFalloff
  | leafLength
  | leafWidth
  | leafColor
  | leafAlpha
deriving DecidableEq, Repr

namespace Slot

/-- The name of a field in a text. -/
def name : Slot → String
  | iterations => "iterations"
  | branchLength => "branch_length"
  | branchWidth => "branch_width"
  | branchAngle => "branch_angle"
  | branchColor => "branch_color"
  | branchFalloff => "branch_length_falloff"
  | leafLength => "leaf_length"
  | leafWidth => "leaf_width"
  | leafColor => "leaf_color"
  | leafAlpha => "leaf_alpha"

/-- What a field of parameters holds. -/
def get (p : Parameters (Encoding .binary64)) : Slot → Datum
  | iterations => .count p.iterations
  | branchLength => .number p.branchLength
  | branchWidth => .number p.branchWidth
  | branchAngle => .number p.branchAngle
  | branchColor => .color p.branchColor
  | branchFalloff => .number p.branchFalloff
  | leafLength => .number p.leafLength
  | leafWidth => .number p.leafWidth
  | leafColor => .color p.leafColor
  | leafAlpha => .number p.leafAlpha

/-- One field of parameters is replaced by what a text tells of it. -/
structure Updated (slot : Slot) (d : Datum) (p p' : Parameters (Encoding .binary64)) : Prop where
  agrees : d.Agrees (slot.get p')
  others : ∀ other, other ≠ slot → other.get p' = other.get p

/-- What is read back of a field updates the record, if its value is set where it is got. -/
theorem updated_of_readsBack {β : Type} {c : Codec β} {kept : β → β} (h : c.ReadsBack 0 kept)
    (slot : Slot) (get : Parameters (Encoding .binary64) → β)
    (set : β → Parameters (Encoding .binary64) → Parameters (Encoding .binary64))
    (d : Datum) (q : Parameters (Encoding .binary64)) (hd : d.written = c.write 0 (get q))
    (hset : ∀ p, slot.Updated d p (set (kept (get q)) p)) (depth : Nat)
    (p : Parameters (Encoding .binary64)) :
    Takes True ((Field.of slot.name get set c).read {} depth p) d.written (slot.Updated d p) := by
  intro rest hrest
  rw [hd]
  exact .inl ⟨_, rest, (h.field slot.name get set q p).read 0 depth rest (Nat.zero_le _) hrest.ends,
    rfl, hset p⟩

/-- Each field of parameters has its place in the record. -/
theorem field?_name (slot : Slot) (q : Parameters (Encoding .binary64)) :
    ∃ field, Codec.parametersRecord.field? slot.name.toList = some field ∧
      ∀ depth p, Takes True (field.read {} depth p) (slot.get q).written
        (slot.Updated (slot.get q) p) := by
  cases slot with
  | iterations =>
    refine ⟨_, rfl, updated_of_readsBack Codec.uint32_readsBack .iterations _ _ _ q rfl
      fun p => ⟨.count _, fun other hother => ?_⟩⟩
    cases other <;> first | rfl | exact absurd rfl hother
  | branchColor =>
    refine ⟨_, rfl, updated_of_readsBack Codec.color_readsBack .branchColor _ _ _ q rfl
      fun p => ⟨.color (Color.bytes_eightBit _), fun other hother => ?_⟩⟩
    cases other <;> first | rfl | exact absurd rfl hother
  | leafColor =>
    refine ⟨_, rfl, updated_of_readsBack Codec.color_readsBack .leafColor _ _ _ q rfl
      fun p => ⟨.color (Color.bytes_eightBit _), fun other hother => ?_⟩⟩
    cases other <;> first | rfl | exact absurd rfl hother
  | _ =>
    refine ⟨_, rfl, updated_of_readsBack Codec.float_readsBack _ _ _ _ q rfl
      fun p => ⟨.number (Encoding.agrees_canonical _), fun other hother => ?_⟩⟩
    cases other <;> first | rfl | exact absurd rfl hother

/-- All fields, in the order of writing. -/
def all : List Slot := [iterations, branchLength, branchWidth, branchAngle, branchColor,
  branchFalloff, leafLength, leafWidth, leafColor, leafAlpha]

/-- The record has these fields and no others. -/
theorem map_name_fields : Codec.parametersRecord.fields.map (·.name) = all.map name := rfl

theorem name_injective {slot other : Slot} (h : slot.name = other.name) : slot = other := by
  revert h
  cases slot <;> cases other <;> decide

end Slot

/-! ## Laying fields over the standard ones -/

/-- The fields that are listed are those of `q`, as far as a text tells them, and the others
the standard ones. -/
def Overlaid (q : Parameters (Encoding .binary64)) (lines : List Line)
    (p : Parameters (Encoding .binary64)) : Prop :=
  ∀ slot : Slot,
    (slot.name.toList ∈ names lines → (slot.get q).Agrees (slot.get p)) ∧
      (slot.name.toList ∉ names lines → slot.get p = slot.get (standard.map .ofFloat))

/-- A line lists a field of parameters in the written form, or a value of any kind, nested
as deep as there may be values, under a name that is no field's. -/
inductive Lists (q : Parameters (Encoding .binary64)) (line : Line) : Prop
  | known (slot : Slot) (hname : line.name = slot.name.toList)
      (hvalue : line.value = (slot.get q).written)
  | unknown (hname : ∀ slot : Slot, line.name ≠ slot.name.toList)
      (hvalue : IsValue (maxDepth - 2) line.value)

variable {q : Parameters (Encoding .binary64)} {line : Line} {lines done : List Line}

theorem field?_eq_none {name : List Char} (h : ∀ slot : Slot, name ≠ slot.name.toList) :
    Codec.parametersRecord.field? name = none := by
  refine List.find?_eq_none.mpr fun field hfield => ?_
  have hmem : field.name ∈ Codec.parametersRecord.fields.map (·.name) := List.mem_map_of_mem hfield
  rw [Slot.map_name_fields] at hmem
  obtain ⟨slot, -, hslot⟩ := List.mem_map.mp hmem
  rw [← hslot]
  simpa using (h slot).symm

theorem Lists.starts (h : Lists q line) : Starts line.value := by
  cases h with
  | known slot _ hvalue => exact hvalue ▸ (slot.get q).isValue_written.starts
  | unknown _ hvalue => exact hvalue.starts

/-- One more line lays its field over the record, or leaves it as it is. -/
theorem Lists.takesLine (h : Lists q line) {p : Parameters (Encoding .binary64)}
    (hp : Overlaid q done p) :
    Codec.parametersRecord.TakesLine True (maxDepth - 2) line p (Overlaid q (done ++ [line])) := by
  rw [Record.TakesLine]
  cases h with
  | known slot hname hvalue =>
    obtain ⟨field, hfield, hread⟩ := slot.field?_name q
    rw [hname, hfield, hvalue]
    refine (hread (maxDepth - 2) p).mono id fun p' hp' other => ?_
    rw [Record.names_append, List.mem_append, List.mem_singleton, hname, String.toList_inj]
    by_cases hother : other = slot
    · subst hother
      exact ⟨fun _ => hp'.agrees, fun hnot => absurd (.inr rfl) hnot⟩
    · rw [or_iff_left (mt Slot.name_injective hother), hp'.others other hother]
      exact hp other
  | unknown hname hvalue =>
    rw [field?_eq_none hname]
    refine (hvalue.passesOver _ le_rfl).mono id fun _ _ slot => ?_
    rw [Record.names_append, List.mem_append, List.mem_singleton, or_iff_left (hname slot).symm]
    exact hp slot

end Parameters

namespace Storage

/-- The fields that a text of parameters lists are laid over the standard ones. -/
theorem exists_ofText_overlaid {q : Parameters (Encoding .binary64)} {lines : List Line}
    {text : List Char}
    (honce : ∀ slot : Parameters.Slot, (names lines).count slot.name.toList ≤ 1)
    (hlines : ∀ line ∈ lines, Parameters.Lists q line)
    (htext : IsText "ExpansionParameters" lines text) :
    ∃ p, ofText Codec.parameters (String.ofList text) = .ok p ∧ Parameters.Overlaid q lines p := by
  have hstep : ∀ done line todo p, lines = done ++ line :: todo → Parameters.Overlaid q done p →
      Codec.parametersRecord.TakesLine True (maxDepth - 2) line p
        (Parameters.Overlaid q (done ++ [line])) := by
    rintro done line todo p rfl hp
    exact (hlines line (List.mem_append_right _ List.mem_cons_self)).takesLine hp
  have hinit : Parameters.Overlaid q [] Codec.parametersRecord.initial :=
    fun slot => ⟨nofun, fun _ => rfl⟩
  have hall : Codec.parametersRecord.Once lines ∧ Codec.parametersRecord.Complete lines := by
    refine ⟨fun field hfield => ?_, nofun⟩
    have hmem : field.name ∈ Codec.parametersRecord.fields.map (·.name) :=
      List.mem_map_of_mem hfield
    rw [Parameters.Slot.map_name_fields] at hmem
    obtain ⟨slot, -, hslot⟩ := List.mem_map.mp hmem
    rw [← hslot]
    exact honce slot
  rcases Record.decode_listing (fun line hline => (hlines line hline).starts) hstep hinit htext with
    ⟨p, hdecode, hp, -⟩ | ⟨hnot, -⟩
  · refine ⟨p, ?_, hp⟩
    have hdecode : Codec.parameters.decode text = .ok p := hdecode
    rw [ofText, String.toList_ofList, hdecode]
    rfl
  · exact absurd ⟨trivial, hall⟩ hnot

end Storage

/-! ## Every kind of record -/

namespace Ron

/-- The kinds of records that are kept in texts. -/
inductive Kind where
  | parameters
  | rule
  | ruleSet
  | limits
  | preset

namespace Kind

/-- What a record of a kind holds. -/
def Data : Kind → Type
  | parameters => Parameters (Encoding .binary64)
  | rule => Rule
  | ruleSet => RuleSet
  | limits => Limits
  | preset => Preset

/-- The fields of a kind of records. -/
def record : (kind : Kind) → Record kind.Data
  | parameters => Codec.parametersRecord
  | rule => Codec.ruleRecord
  | ruleSet => Codec.ruleSetRecord
  | limits => Codec.limitsRecord
  | preset => Codec.presetRecord

/-- The names of the fields of a kind of records. -/
def fieldNames (kind : Kind) : List String := kind.record.fields.map (·.name)

/-- The depth that the records inside a record need. -/
def need : Kind → Nat
  | parameters | rule | limits => 2
  | ruleSet => 6
  | preset => 8

theorem rule_whole :
    ∀ field ∈ Codec.ruleRecord.fields, ∀ depth a, Whole (field.read {} depth a) := by
  simp only [Codec.ruleRecord, List.forall_mem_cons]
  exact ⟨Codec.whole_char.field _ _ _, Codec.whole_word.field _ _ _, List.forall_mem_nil _⟩

theorem ruleSet_whole :
    ∀ field ∈ Codec.ruleSetRecord.fields, ∀ depth a, Whole (field.read {} depth a) := by
  simp only [Codec.ruleSetRecord, List.forall_mem_cons]
  exact ⟨Codec.whole_word.field _ _ _, (Record.whole_codec rule_whole).list.field _ _ _,
    List.forall_mem_nil _⟩

theorem limits_whole :
    ∀ field ∈ Codec.limitsRecord.fields, ∀ depth a, Whole (field.read {} depth a) := by
  simp only [Codec.limitsRecord, List.forall_mem_cons]
  exact ⟨Codec.whole_uint32.field _ _ _, Codec.whole_uint64.field _ _ _, List.forall_mem_nil _⟩

theorem preset_whole :
    ∀ field ∈ Codec.presetRecord.fields, ∀ depth a, Whole (field.read {} depth a) := by
  simp only [Codec.presetRecord, List.forall_mem_cons]
  exact ⟨Codec.whole_text.field _ _ _, (Record.whole_codec ruleSet_whole).field _ _ _,
    List.forall_mem_nil _⟩

theorem parameters_whole :
    ∀ field ∈ Codec.parametersRecord.fields, ∀ depth a, Whole (field.read {} depth a) := by
  have hcount := Codec.whole_uint32
  have hnumber := Codec.whole_float
  have hcolor := Codec.whole_color
  simp only [Codec.parametersRecord, List.forall_mem_cons]
  exact ⟨hcount.field _ _ _, hnumber.field _ _ _, hnumber.field _ _ _, hnumber.field _ _ _,
    hcolor.field _ _ _, hnumber.field _ _ _, hnumber.field _ _ _, hnumber.field _ _ _,
    hcolor.field _ _ _, hnumber.field _ _ _, List.forall_mem_nil _⟩

/-- Whatever value is read as a field of a record is taken whole, or not up to its end. -/
theorem whole :
    ∀ kind : Kind, ∀ field ∈ kind.record.fields, ∀ depth a, Whole (field.read {} depth a)
  | parameters => parameters_whole
  | rule => rule_whole
  | ruleSet => ruleSet_whole
  | limits => limits_whole
  | preset => preset_whole

theorem two_le_need (kind : Kind) : 2 ≤ kind.need := by
  cases kind <;> decide

theorem need_le_maxDepth (kind : Kind) : kind.need ≤ maxDepth := by
  cases kind <;> decide

/-- Only parameters may go without some of their fields. -/
theorem required_of_ne {kind : Kind} (h : kind ≠ .parameters) : kind.record.required = true := by
  cases kind with
  | parameters => exact absurd rfl h
  | _ => rfl

end Kind

/-- Lines with values of the notation, of any kind and however deep they nest. -/
def HoldValues (lines : List Line) : Prop := ∀ line ∈ lines, ∃ n, IsValue n line.value

/-- A record that lists a field twice or goes without one that it needs, or that has such a
record inside. -/
inductive Flawed : Kind → List Char → Prop
  | repeated {kind : Kind} {lines : List Line} {text : List Char} {name : String}
      (h : IsRecord kind.record.name lines text) (hvalues : HoldValues lines)
      (hname : name ∈ kind.fieldNames) (hcount : 2 ≤ (names lines).count name.toList) :
      Flawed kind text
  | omitted {kind : Kind} {lines : List Line} {text : List Char} {name : String}
      (hkind : kind ≠ .parameters) (h : IsRecord kind.record.name lines text)
      (hvalues : HoldValues lines) (hname : name ∈ kind.fieldNames)
      (homits : name.toList ∉ names lines) : Flawed kind text
  | rule {lines : List Line} {text body bad : List Char} {line : Line} {values : List (List Char)}
      (h : IsRecord "RuleSet" lines text) (hvalues : HoldValues lines) (hline : line ∈ lines)
      (hname : line.name = "rules".toList) (hlist : line.value = '[' :: (body ++ [']']))
      (hbody : Sequence values body) (hitems : ∀ v ∈ values, ∃ n, IsValue n v)
      (hmem : bad ∈ values) (hbad : Flawed .rule bad) : Flawed .ruleSet text
  | ruleSet {lines : List Line} {text : List Char} {line : Line}
      (h : IsRecord "Preset" lines text) (hvalues : HoldValues lines) (hline : line ∈ lines)
      (hname : line.name = "rules".toList) (hbad : Flawed .ruleSet line.value) :
      Flawed .preset text

namespace Flawed

variable {kind : Kind} {text : List Char}

theorem exists_cons (h : Flawed kind text) : ∃ c more, text = c :: more ∧ Seen c ∧ c ≠ '#' := by
  cases h with
  | repeated h => exact h.exists_cons
  | omitted _ h => exact h.exists_cons
  | rule h => exact h.exists_cons
  | ruleSet h => exact h.exists_cons

/-- Where the depth of the records inside is left, a flawed record is refused. -/
theorem refuses (h : Flawed kind text) : kind.record.codec.Refuses kind.need text := by
  induction h with
  | @repeated kind lines text _ h hvalues hname hcount =>
    obtain ⟨field, hfield, rfl⟩ := List.mem_map.mp hname
    refine (Record.refuses_of_lines kind.whole h hvalues fun hall => ?_).mono kind.two_le_need
    have honce := hall.1 field hfield
    omega
  | @omitted kind lines text _ hkind h hvalues hname homits =>
    obtain ⟨field, hfield, rfl⟩ := List.mem_map.mp hname
    refine (Record.refuses_of_lines kind.whole h hvalues fun hall => ?_).mono kind.two_le_need
    exact homits (hall.2 (kind.required_of_ne hkind) field hfield)
  | @rule lines text body bad line values h hvalues hline hname hlist hbody hitems hmem _ ih =>
    have hrules : (Codec.list Codec.rule).Refuses 4 line.value := by
      rw [hlist]
      exact Codec.Refuses.list (Record.whole_codec Kind.rule_whole) hbody hitems hmem ih
    have hfield : Codec.ruleSetRecord.field? line.name = some (Field.of "rules" (·.rules)
        (fun rs g => { g with rules := rs }) (Codec.list Codec.rule)) := by
      rw [hname]
      rfl
    exact Record.refuses_of_line Kind.ruleSet_whole h hvalues hline hfield (hrules.field _ _ _)
  | @ruleSet lines text line h hvalues hline hname _ ih =>
    have hfield : Codec.presetRecord.field? line.name = some (Field.of "rules" (·.rules)
        (fun g p => { p with rules := g }) Codec.ruleSet) := by
      rw [hname]
      rfl
    have hrules : Codec.ruleSet.Refuses 6 line.value := ih
    exact Record.refuses_of_line Kind.preset_whole h hvalues hline hfield (hrules.field _ _ _)

end Flawed

/-! ## Plain lines, and lists inside each other -/

/-- A line with a blank behind the colon, and a key without marks. -/
def Line.plain (name value : List Char) (h : IsPlain name) : Line where
  key := name
  before := []
  behind := [' ']
  value
  isGap_before := .nil
  isGap_behind := .space
  name
  spells := .plain h.isName

/-- As many lists inside each other, the innermost one empty. -/
def nestedLists (n : Nat) : List Char := List.replicate n '[' ++ List.replicate n ']'

/-- Each list that is not empty takes two steps inside. -/
theorem isValue_nestedLists (n : Nat) : IsValue (2 * n + 1) (nestedLists (n + 1)) := by
  induction n with
  | zero => exact .list (.nil .nil) nofun (Nat.le_refl _)
  | succ n ih =>
    have hbody : Sequence [nestedLists (n + 1)] (nestedLists (n + 1)) := by
      simpa using Sequence.last .nil .nil
    have htext : nestedLists (n + 2) = '[' :: (nestedLists (n + 1) ++ [']']) := by
      rw [nestedLists, nestedLists, List.replicate_succ, List.replicate_succ' (n := n + 1)]
      simp
    rw [htext]
    exact .list hbody (by simpa using ih) (Nat.le_refl _)

end Ron

namespace Storage

/-- The text of a flawed record is refused, with gaps around it. -/
theorem exists_ofText_error {kind : Kind} {lead text trail : List Char} (hlead : IsGap lead)
    (h : Flawed kind text) (htrail : IsGap trail) :
    ∃ fault, ofText kind.record.codec (String.ofList (lead ++ (text ++ trail))) =
      .error (.ron fault) := by
  obtain ⟨fault, hfault⟩ := h.refuses.decode kind.need_le_maxDepth hlead htrail h.exists_cons
  exact ⟨fault, by rw [ofText, String.toList_ofList, hfault]; rfl⟩

/-- **A text of parameters is laid over the standard ones**: the fields that it lists are
those of `q`, in any order, and all others are standard, whatever values there are for
keys that are no fields. A record that lists a field twice is refused, and one of another
kind that leaves a field out, wherever it stands. -/
theorem ofText_partial :
    (∀ (q : Parameters (Encoding .binary64)) (lines : List Line) (text : List Char),
        (∀ slot : Parameters.Slot, (names lines).count slot.name.toList ≤ 1) →
          (∀ line ∈ lines, Parameters.Lists q line) →
            IsText "ExpansionParameters" lines text →
              ∃ p, ofText Codec.parameters (String.ofList text) = .ok p ∧
                Parameters.Overlaid q lines p) ∧
      ∀ (kind : Kind) (lead text trail : List Char), IsGap lead → Flawed kind text → IsGap trail →
        ∃ fault, ofText kind.record.codec (String.ofList (lead ++ (text ++ trail))) =
          .error (.ron fault) :=
  ⟨fun _ _ _ honce hlines htext => exists_ofText_overlaid honce hlines htext,
    fun _ _ _ _ hlead hflawed htrail => exists_ofText_error hlead hflawed htrail⟩

/-! ## Texts of a few lines -/

/-- A value under a key that is no field. -/
def extraLine : Line := Line.plain "extra".toList "[()]".toList (by decide)

/-- Iterations under a raw key. -/
def fewLine : Line where
  key := "r#iterations".toList
  before := []
  behind := [' ']
  value := "5".toList
  isGap_before := .nil
  isGap_behind := .space
  name := "iterations".toList
  spells := .raw (by decide) (List.all_eq_true.mp (by decide))

/-- The standard parameters with few iterations. -/
def fewIterations : Parameters (Encoding .binary64) :=
  { Parameters.standard.map .ofFloat with iterations := 5 }

theorem isValue_extraLine : IsValue (maxDepth - 2) extraLine.value := by
  have hunit : Sequence ["()".toList] "()".toList := .last .nil .nil
  exact .list hunit (List.forall_mem_singleton.mpr (.literal .unit))
    (by decide : 0 + 2 ≤ maxDepth - 2)

theorem lists_extraLine : Parameters.Lists fewIterations extraLine :=
  .unknown (fun slot => by cases slot <;> decide) isValue_extraLine

theorem lists_fewLine : Parameters.Lists fewIterations fewLine :=
  .known .iterations rfl (by decide)

theorem isText_few : IsText "ExpansionParameters" [extraLine, fewLine]
    "(/* few */ extra: [()], r#iterations: 5,)".toList := by
  have hcomment : IsComment 0 " few */".toList := by
    repeat first | exact .close | refine .char (by decide) (by decide) ?_
  have hbody : Sequence ([extraLine, fewLine].map fun line => line.text)
      "/* few */ extra: [()], r#iterations: 5,".toList :=
    .cons (.comment hcomment .space) .nil (.cons .space .nil (.nil .nil))
  exact .intro .nil (.intro .nil hbody) .nil

/-- A field that is listed twice. -/
theorem flawed_twice : Flawed .parameters "(leaf_width: 1, leaf_width: 2)".toList := by
  let width := fun value => Line.plain "leaf_width".toList value (by decide)
  let lines := [width "1".toList, width "2".toList]
  have hvalues : HoldValues lines := by
    simp only [HoldValues, lines, List.forall_mem_cons]
    exact ⟨⟨0, isValue_writeNatural 1⟩, ⟨0, isValue_writeNatural 2⟩, nofun⟩
  have hbody : Sequence (lines.map fun line => line.text)
      "leaf_width: 1, leaf_width: 2".toList := .cons .nil .nil (.last .space .nil)
  have hname : "leaf_width" ∈ Kind.fieldNames .parameters := by decide
  exact .repeated (.intro .nil hbody) hvalues hname (by decide)

/-- Limits without one of their fields. -/
theorem flawed_half : Flawed .limits "(max_symbols: 9)".toList := by
  let lines := [Line.plain "max_symbols".toList "9".toList (by decide)]
  have hvalues : HoldValues lines := by
    simp only [HoldValues, lines, List.forall_mem_cons]
    exact ⟨⟨0, isValue_writeNatural 9⟩, nofun⟩
  have hbody : Sequence (lines.map fun line => line.text) "max_symbols: 9".toList :=
    .last .nil .nil
  have hname : "max_generations" ∈ Kind.fieldNames .limits := by decide
  exact .omitted nofun (.intro .nil hbody) hvalues hname (by decide)

/-- What agrees with a number of iterations is this number. -/
theorem iterations_of_agrees {n : UInt32} {p : Parameters (Encoding .binary64)}
    (h : Parameters.Datum.Agrees (.count n) (Parameters.Slot.get p .iterations)) :
    p.iterations = n := by
  generalize hdatum : Parameters.Slot.get p .iterations = datum at h
  obtain _ | _ | _ := h
  exact Parameters.Datum.count.inj hdatum

/-- Iterations under a raw key, behind a comment and a key that is no field. -/
theorem ofText_partial_iterations :
    (∃ p, ofText Codec.parameters "(/* few */ extra: [()], r#iterations: 5,)" = .ok p ∧
        p.iterations = 5 ∧ p.branchLength = .ofFloat 30) ∧
      (∃ fault, ofText Codec.parameters "(leaf_width: 1, leaf_width: 2)" = .error (.ron fault)) ∧
        ∃ fault, ofText Codec.limits "(max_symbols: 9)" = .error (.ron fault) := by
  have honce : ∀ slot : Parameters.Slot,
      (names [extraLine, fewLine]).count slot.name.toList ≤ 1 := by
    intro slot
    cases slot <;> decide
  have hlines : ∀ line ∈ [extraLine, fewLine], Parameters.Lists fewIterations line :=
    List.forall_mem_cons.mpr ⟨lists_extraLine, List.forall_mem_singleton.mpr lists_fewLine⟩
  obtain ⟨p, hp, hover⟩ := ofText_partial.1 _ _ _ honce hlines isText_few
  obtain ⟨_, htwice⟩ := ofText_partial.2 .parameters [] _ [] .nil flawed_twice .nil
  obtain ⟨_, hhalf⟩ := ofText_partial.2 .limits [] _ [] .nil flawed_half .nil
  rw [String.ofList_toList] at hp
  rw [List.nil_append, List.append_nil, String.ofList_toList] at htwice hhalf
  have hfew := iterations_of_agrees ((hover .iterations).1 (by decide))
  have hlength := Parameters.Datum.number.inj ((hover .branchLength).2 (by decide))
  exact ⟨⟨p, hp, hfew, hlength⟩, ⟨_, htwice⟩, _, hhalf⟩

/-- Where nothing is read of a text, it is refused. -/
theorem exists_error_of_isNone {α : Type} {c : Codec α} {cs : List Char}
    (h : (c.decode cs).toOption.isNone = true) :
    ∃ fault, ofText c (String.ofList cs) = .error (.ron fault) := by
  rw [ofText, String.toList_ofList]
  cases hdecode : c.decode cs with
  | ok a =>
    rw [hdecode] at h
    cases h
  | error fault => exact ⟨fault, rfl⟩

/-- Lists that nest too deep, in a line of their own, are values that are refused. -/
theorem nestedLists_refused :
    (∃ n, IsValue n (nestedLists 64)) ∧ ∃ lines,
      names lines = ["x".toList] ∧ lines.map (·.value) = [nestedLists 64] ∧
        IsText "ExpansionParameters" lines ('(' :: ("x: ".toList ++ nestedLists 64 ++ [')'])) ∧
          ∃ fault, ofText Codec.parameters
            (String.ofList ('(' :: ("x: ".toList ++ nestedLists 64 ++ [')']))) =
              .error (.ron fault) := by
  let line := Line.plain "x".toList (nestedLists 64) (by decide)
  have hline : "x: ".toList ++ nestedLists 64 = line.text := rfl
  have hbody : Sequence [line.text] line.text := by
    simpa using Sequence.last .nil .nil
  have hrecord : IsRecord "ExpansionParameters" [line] ('(' :: (line.text ++ [')'])) :=
    .intro .nil hbody
  have htext : IsText "ExpansionParameters" [line] ('(' :: (line.text ++ [')'])) := by
    simpa using IsText.intro .nil hrecord .nil
  rw [hline]
  exact ⟨⟨_, isValue_nestedLists 63⟩, [line], rfl, rfl, htext,
    exists_error_of_isNone (by decide +kernel)⟩

/-- Values of the notation that are refused under a key that is no field: lists that nest
too deep; integers that leave 64 bits or the type behind them, and a type behind digits of
base sixteen or eight, or of 128 bits; escapes that spell no character; and words in front
of parentheses that are not around the one value of `Some`. -/
theorem ofText_unknown_refused :
    ((∃ n, IsValue n (nestedLists 64)) ∧ ∃ lines,
      names lines = ["x".toList] ∧ lines.map (·.value) = [nestedLists 64] ∧
        IsText "ExpansionParameters" lines ('(' :: ("x: ".toList ++ nestedLists 64 ++ [')'])) ∧
          ∃ fault, ofText Codec.parameters
            (String.ofList ('(' :: ("x: ".toList ++ nestedLists 64 ++ [')']))) =
              .error (.ron fault)) ∧
      ∀ value ∈ ["0xFFFFFFFFFFFFFFFFF", "300u8", "0x1Fu32", "0o17u8", "5i128", "5u128",
          "\"\\xFF\"", "'\\x80'", "true(1)", "Some(1, 2)", "Some"], ∃ fault,
        ofText Codec.parameters (String.ofList ('(' :: ("x: ".toList ++ value.toList ++ [')']))) =
          .error (.ron fault) := by
  refine ⟨nestedLists_refused, fun value hvalue => exists_error_of_isNone ?_⟩
  revert value
  decide +kernel

end Storage

end PlantGrammar
