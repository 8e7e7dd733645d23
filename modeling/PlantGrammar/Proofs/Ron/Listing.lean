import PlantGrammar.Proofs.Ron.Codec
import PlantGrammar.Proofs.Ron.Skipping

/-!
# Records listed line by line

The text of a record lists keys and values in parentheses, in any order, with gaps
wherever there is room for them and keys among them that the record has no field for.
Which fields a text lists decides what becomes of it: it is read unless a field is listed
twice or, where all are required, one is left out (`Record.decode_listing`). This is one
law of the run over the lines, whose invariant is that the fields seen so far are those of
the lines behind.
-/

namespace PlantGrammar.Ron

open Reader

/-- A line of a record: an entry whose key spells a name. -/
structure Line extends Entry where
  name : List Char
  spells : Spells name key

/-- The names that some lines list. -/
def names (lines : List Line) : List (List Char) := lines.map (·.name)

variable {α β : Type} {r : Record α} {lines : List Line} {body cs rest gap : List Char}

namespace Record

/-- No field is listed twice. Any other key may be. -/
def Once (r : Record α) (lines : List Line) : Prop :=
  ∀ field ∈ r.fields, (names lines).count field.name.toList ≤ 1

/-- All fields are listed, if they are required. -/
def Complete (r : Record α) (lines : List Line) : Prop :=
  r.required = true → ∀ field ∈ r.fields, field.name.toList ∈ names lines

/-! ## One line -/

/-- The field that a name is for. -/
def field? (r : Record α) (name : List Char) : Option (Field α) :=
  r.fields.find? fun field => field.name.toList == name

theorem field?_eq_some {name : List Char} {field : Field α} (h : r.field? name = some field) :
    field ∈ r.fields ∧ field.name.toList = name :=
  ⟨List.mem_of_find?_eq_some h, by simpa using List.find?_some h⟩

theorem field?_eq_none {name : List Char} (h : r.field? name = none) :
    ∀ field ∈ r.fields, field.name.toList ≠ name := by
  simpa using List.find?_eq_none.mp h

/-- Behind its key and the colon a line is read as its field is, or passed over. -/
theorem readField_text (line : Line) (hvalue : Starts line.value) (depth : Nat)
    (s : α × List String) (rest : List Char) :
    r.readField {} (depth + 1) s (line.text ++ rest) =
      match r.field? line.name with
      | some field =>
        if s.2.contains field.name then .error (.duplicateField field.name r.name)
        else (field.read {} depth s.1 >>= fun a => pure (a, field.name :: s.2))
          (line.value ++ rest)
      | none => (value {} depth >>= fun _ => pure s) (line.value ++ rest) := by
  let behind := line.behind ++ (line.value ++ rest)
  have htext : line.text ++ rest = line.key ++ (line.before ++ ':' :: behind) := by
    simp [Entry.text, behind]
  have hkey : Reader.identifier (line.text ++ rest) =
      .ok (line.name, line.before ++ ':' :: behind) := by
    rw [htext]
    exact line.spells.identifier_append (line.isGap_before.endsName_append (endsName_colon _))
  have hcolon : blank (line.before ++ ':' :: behind) = .ok ((), ':' :: behind) :=
    (line.isGap_before.blank_append _).trans (Seen.blank (by decide) _)
  have hgap : blank behind = .ok ((), line.value ++ rest) :=
    (line.isGap_behind.blank_append _).trans (hvalue.append rest).blank
  rw [readField, inside_succ, bind_ok hkey]
  dsimp only
  change (match r.field? line.name with | some field => _ | none => _ : Reader _) _ = _
  cases r.field? line.name with
  | some field =>
    dsimp only
    split
    · rfl
    · exact (bind_ok hcolon).trans ((bind_ok (expect_cons ':' behind)).trans (bind_ok hgap))
  | none => exact (bind_ok hcolon).trans ((bind_ok (expect_cons ':' behind)).trans (bind_ok hgap))

/-! ## All lines -/

theorem names_append (done : List Line) (line : Line) :
    names (done ++ [line]) = names done ++ [line.name] := by
  rw [names, List.map_append, List.map_singleton]
  rfl

/-- A field is read into a record under construction with the outcome `post` tells, and a
value that there is no field for is passed over. -/
def TakesLine (r : Record α) (sure : Prop) (depth : Nat) (line : Line) (a : α) (post : α → Prop) :
    Prop :=
  match r.field? line.name with
  | some field => Takes sure (field.read {} depth a) line.value post
  | none => Takes sure (value {} depth) line.value fun _ => post a

theorem TakesLine.mono {sure : Prop} {depth : Nat} {line : Line} {a : α} {post post' : α → Prop}
    (h : r.TakesLine sure depth line a post) (hpost : ∀ b, post b → post' b) :
    r.TakesLine sure depth line a post' := by
  rw [TakesLine] at h ⊢
  cases hfield : r.field? line.name with
  | none =>
    rw [hfield] at h
    exact h.mono id fun _ => hpost a
  | some field =>
    rw [hfield] at h
    exact h.mono id hpost

/-- What holds where the reader has come to: the lines behind it have led to the record so
far, and the fields seen are the ones that they list, each of them once. -/
structure Reached (r : Record α) (P : List Line → α → Prop) (done : List Line)
    (s : α × List String) : Prop where
  holds : P done s.1
  seen : ∀ field ∈ r.fields, field.name ∈ s.2 ↔ field.name.toList ∈ names done
  once : r.Once done

section Run

variable {sure : Prop} {depth : Nat} {P : List Line → α → Prop} {done todo : List Line}
  {line : Line} {s : α × List String}

/-- A field that is not in the lines behind is new. -/
theorem Reached.push {field : Field α} {a : α} (h : Reached r P done s)
    (hname : field.name.toList = line.name) (hnew : field.name ∉ s.2)
    (ha : P (done ++ [line]) a) : Reached r P (done ++ [line]) (a, field.name :: s.2) where
  holds := ha
  seen other hother := by
    rw [names_append, List.mem_append, List.mem_singleton, List.mem_cons, h.seen other hother,
      ← hname, String.toList_inj, or_comm]
  once other hother := by
    rw [names_append, List.count_append, List.count_singleton]
    by_cases hsame : other.name = field.name
    · have hnone : other.name.toList ∉ names done := by
        rw [← h.seen other hother, hsame]
        exact hnew
      rw [List.count_eq_zero_of_not_mem hnone]
      split <;> omega
    · have hname' : (line.name == other.name.toList) = false := by
        rw [← hname, beq_eq_false_iff_ne, ne_eq, String.toList_inj]
        exact Ne.symm hsame
      rw [hname', if_neg (by decide)]
      exact h.once other hother

/-- Where no field has the name of a line, the line leaves the record and its fields. -/
theorem Reached.skip (h : Reached r P done s)
    (hname : ∀ field ∈ r.fields, field.name.toList ≠ line.name)
    (ha : P (done ++ [line]) s.1) : Reached r P (done ++ [line]) s where
  holds := ha
  seen other hother := by
    rw [names_append, List.mem_append, List.mem_singleton, h.seen other hother,
      or_iff_left (hname other hother)]
  once other hother := by
    have hname' : (line.name == other.name.toList) = false :=
      beq_eq_false_iff_ne.mpr (hname other hother).symm
    rw [names_append, List.count_append, List.count_singleton, hname', if_neg (by decide)]
    exact h.once other hother

/-- One more line is read, or it lists a field that was there before. -/
theorem readField_takes (hlines : lines = done ++ line :: todo) (hvalue : Starts line.value)
    (hline : r.TakesLine sure depth line s.1 fun a => P (done ++ [line]) a)
    (h : Reached r P done s) :
    Takes (sure ∧ r.Once lines) (r.readField {} (depth + 1) s) line.text
      (Reached r P (done ++ [line])) := by
  intro rest hrest
  rw [readField_text line hvalue]
  rw [TakesLine] at hline
  cases hfield : r.field? line.name with
  | none =>
    rw [hfield] at hline
    exact (hline.map (f := fun _ => s) fun _ ha => h.skip (field?_eq_none hfield) ha).mono And.left
      (fun _ => id) rest hrest
  | some field =>
    obtain ⟨hmem, hname⟩ := field?_eq_some hfield
    rw [hfield] at hline
    dsimp only at hline ⊢
    by_cases hseen : field.name ∈ s.2
    · rw [if_pos (by simpa using hseen)]
      refine .inr ⟨fun hboth => ?_, nofun⟩
      -- the lines behind list the field already
      have hbefore := List.count_pos_iff.mpr ((h.seen field hmem).mp hseen)
      have hcount := hboth.2 field hmem
      rw [hlines, names, List.map_append, List.map_cons, List.count_append, ← hname,
        List.count_cons_self] at hcount
      rw [names] at hbefore
      omega
    · rw [if_neg (by simpa using hseen)]
      exact (hline.map (f := fun a => (a, field.name :: s.2)) fun _ ha =>
        h.push hname hseen ha).mono And.left (fun _ => id) rest hrest

/-- The lines are read one after the other, unless a field is listed twice. -/
theorem items_lines (hvalues : ∀ line ∈ lines, Starts line.value)
    (hlines : ∀ done line todo a, lines = done ++ line :: todo → P done a →
      r.TakesLine sure depth line a fun a => P (done ++ [line]) a)
    (hinit : P [] r.initial) (hbody : Sequence (lines.map fun line => line.text) body)
    (rest : List Char) :
    (∃ s, items ')' (r.readField {} (depth + 1)) (r.initial, []) (body ++ ')' :: rest) =
        .ok (s, ')' :: rest) ∧ Reached r P lines s) ∨
      ¬ (sure ∧ r.Once lines) ∧ ∃ fault,
        items ')' (r.readField {} (depth + 1)) (r.initial, []) (body ++ ')' :: rest) =
          .error fault := by
  let Inv : List (List Char) → α × List String → Prop := fun vs s =>
    ∃ done todo, lines = done ++ todo ∧ vs = todo.map (fun line => line.text) ∧ Reached r P done s
  have hstep : ∀ v vs s, Inv (v :: vs) s →
      Takes (sure ∧ r.Once lines) (r.readField {} (depth + 1) s) v (Inv vs) := by
    rintro v vs s ⟨done, todo, hall, hvs, hreached⟩
    obtain ⟨line, todo, rfl, rfl, rfl⟩ := List.map_eq_cons_iff.mp hvs.symm
    have hline := hlines done line todo s.1 hall hreached.holds
    have hmem : line ∈ lines := hall ▸ List.mem_append_right _ List.mem_cons_self
    refine (readField_takes hall (hvalues line hmem) hline hreached).mono id fun s' hs' => ?_
    exact ⟨done ++ [line], todo, by rw [hall, List.append_assoc]; rfl, rfl, hs'⟩
  have hstart : Inv (lines.map fun line => line.text) (r.initial, []) :=
    ⟨[], lines, rfl, rfl, hinit, fun field _ => ⟨nofun, nofun⟩, fun field _ => Nat.zero_le 1⟩
  have hstarts : ∀ v ∈ lines.map (fun line => line.text), Starts v := by
    intro v hv
    obtain ⟨line, -, rfl⟩ := List.mem_map.mp hv
    exact line.spells.starts.append _
  have hclose : ')' ∈ enders ∧ ')' ≠ ',' := by decide
  rcases items_sequence hclose.1 hclose.2 hstep hbody hstarts hstart rest with
    ⟨s, hitems, done, todo, hall, htodo, hreached⟩ | hfails
  · obtain rfl : todo = [] := List.map_eq_nil_iff.mp htodo.symm
    rw [List.append_nil] at hall
    exact .inl ⟨s, hitems, hall ▸ hreached⟩
  · exact .inr hfails

/-- The first required field that is not seen. -/
def missing? (r : Record α) (seen : List String) : Option (Field α) :=
  if r.required then r.fields.find? fun field => !seen.contains field.name else none

/-- Where all lines are read, a field is missing if it is required and none of them lists it. -/
theorem missing?_eq_none_iff (h : Reached r P lines s) :
    r.missing? s.2 = none ↔ r.Complete lines := by
  rw [missing?, Complete]
  cases r.required
  · exact ⟨fun _ => nofun, fun _ => rfl⟩
  · rw [if_pos rfl, List.find?_eq_none]
    refine ⟨fun hnone _ field hfield => ?_, fun hall field hfield => ?_⟩
    · rw [← h.seen field hfield]
      simpa using hnone field hfield
    · simpa using (h.seen field hfield).mpr (hall rfl field hfield)

/-- Behind its lines a record is read, unless a field is missing. -/
theorem readFields_of_items (hgap : IsGap gap)
    (hitems : items ')' (r.readField {} depth) (r.initial, []) (body ++ ')' :: rest) =
      .ok (s, ')' :: rest)) :
    r.readFields {} (depth + 1) (gap ++ '(' :: (body ++ ')' :: rest)) =
      match r.missing? s.2 with
      | some field => .error (.missingField field.name r.name)
      | none => .ok (s.1, rest) := by
  have hparens : Seen '(' ∧ Seen ')' := by decide
  have hopen : blank (gap ++ '(' :: (body ++ ')' :: rest)) =
      .ok ((), '(' :: (body ++ ')' :: rest)) := (hgap.blank_append _).trans (hparens.1.blank _)
  rw [readFields, bind_ok hopen, bind_ok (expect_cons '(' _), inside_succ, bind_assoc,
    bind_ok hitems]
  cases hmissing : r.missing? s.2 with
  | some field =>
    rw [missing?] at hmissing
    dsimp only
    rw [hmissing]
    rfl
  | none =>
    rw [missing?] at hmissing
    dsimp only
    rw [hmissing]
    dsimp only
    rw [pure_bind, bind_ok (hparens.2.blank rest), bind_ok (expect_cons ')' rest)]
    rfl

/-- The fields in parentheses are read, unless one is listed twice or, where all are
required, left out. -/
theorem readFields_lines (hvalues : ∀ line ∈ lines, Starts line.value)
    (hlines : ∀ done line todo a, lines = done ++ line :: todo → P done a →
      r.TakesLine sure depth line a fun a => P (done ++ [line]) a)
    (hinit : P [] r.initial) (hgap : IsGap gap)
    (hbody : Sequence (lines.map fun line => line.text) body) (rest : List Char) :
    (∃ a, r.readFields {} (depth + 2) (gap ++ '(' :: (body ++ ')' :: rest)) = .ok (a, rest) ∧
        P lines a ∧ r.Once lines ∧ r.Complete lines) ∨
      ¬ (sure ∧ r.Once lines ∧ r.Complete lines) ∧ ∃ fault,
        r.readFields {} (depth + 2) (gap ++ '(' :: (body ++ ')' :: rest)) = .error fault := by
  rcases items_lines hvalues hlines hinit hbody rest with
    ⟨s, hitems, hreached⟩ | ⟨hnot, fault, hfault⟩
  · have hfields := readFields_of_items hgap hitems
    have hcomplete := missing?_eq_none_iff hreached
    cases hmissing : r.missing? s.2 with
    | none =>
      rw [hmissing] at hfields hcomplete
      exact .inl ⟨s.1, hfields, hreached.holds, hreached.once, hcomplete.mp rfl⟩
    | some field =>
      rw [hmissing] at hfields hcomplete
      exact .inr ⟨fun hall => (nomatch hcomplete.mpr hall.2.2), _, hfields⟩
  · have hopen : blank (gap ++ '(' :: (body ++ ')' :: rest)) =
        .ok ((), '(' :: (body ++ ')' :: rest)) :=
      (hgap.blank_append _).trans (Seen.blank (by decide) _)
    refine .inr ⟨fun hall => hnot ⟨hall.1, hall.2.1⟩, fault, ?_⟩
    rw [readFields, bind_ok hopen, bind_ok (expect_cons '(' _), inside_succ]
    exact bind_error (bind_error hfault)

end Run

end Record

/-! ## Whole texts -/

/-- What stands in front of the parentheses of a record: nothing, or its name. -/
inductive IsOwner (owner : String) : List Char → Prop
  | nil : IsOwner owner []
  | name {text gap : List Char} (h : Spells owner.toList text) (hgap : IsGap gap) :
      IsOwner owner (text ++ gap)

/-- A record: lines between parentheses, behind its name or without it. -/
inductive IsRecord (owner : String) (lines : List Line) : List Char → Prop
  | intro {head body : List Char} (hhead : IsOwner owner head)
      (hbody : Sequence (lines.map fun line => line.text) body) :
      IsRecord owner lines (head ++ '(' :: (body ++ [')']))

/-- The text of a record, with gaps around it. -/
inductive IsText (owner : String) (lines : List Line) : List Char → Prop
  | intro {lead text trail : List Char} (hlead : IsGap lead) (h : IsRecord owner lines text)
      (htrail : IsGap trail) : IsText owner lines (lead ++ (text ++ trail))

/-- In front of the parentheses the name is read. -/
theorem Record.readName_owner {head : List Char} (h : IsOwner r.name head) (rest : List Char) :
    ∃ gap, IsGap gap ∧ r.readName {} (head ++ '(' :: rest) = .ok ((), gap ++ '(' :: rest) := by
  cases h with
  | nil =>
    have hparen : Text.continuesName '(' = false := by decide
    have hpeek : peek? ([] ++ '(' :: rest) = .ok (some '(', '(' :: rest) := rfl
    refine ⟨[], .nil, ?_⟩
    rw [readName, bind_ok hpeek, Option.any_some, if_neg (by simp [hparen])]
    rfl
  | @name text gap h hgap =>
    obtain ⟨c, more, rfl, hc⟩ := h.exists_cons
    have hpeek : peek? (c :: more ++ gap ++ '(' :: rest) =
        .ok (some c, c :: more ++ gap ++ '(' :: rest) := rfl
    have hname : Reader.identifier (c :: more ++ gap ++ '(' :: rest) =
        .ok (r.name.toList, gap ++ '(' :: rest) := by
      rw [List.append_assoc]
      exact h.identifier_append (hgap.endsName_append (endsName_paren rest))
    refine ⟨gap, hgap, ?_⟩
    rw [readName, bind_ok hpeek, Option.any_some, if_pos (continuesName_of_beginsName hc),
      bind_ok hname, if_neg (by simp)]
    rfl

/-- A record is read, unless a field is listed twice or, where all are required, left out. -/
theorem Record.codec_lines {sure : Prop} {P : List Line → α → Prop} {text : List Char} {depth : Nat}
    (hvalues : ∀ line ∈ lines, Starts line.value)
    (hlines : ∀ done line todo a, lines = done ++ line :: todo → P done a →
      r.TakesLine sure depth line a fun a => P (done ++ [line]) a)
    (hinit : P [] r.initial) (htext : IsRecord r.name lines text) (rest : List Char) :
    (∃ a, r.codec.read {} (depth + 2) (text ++ rest) = .ok (a, rest) ∧ P lines a ∧
        r.Once lines ∧ r.Complete lines) ∨
      ¬ (sure ∧ r.Once lines ∧ r.Complete lines) ∧ ∃ fault,
        r.codec.read {} (depth + 2) (text ++ rest) = .error fault := by
  obtain @⟨head, body, hhead, hbody⟩ := htext
  obtain ⟨gap, hgap, hname⟩ := readName_owner hhead (body ++ ')' :: rest)
  have happend : head ++ '(' :: (body ++ [')']) ++ rest = head ++ '(' :: (body ++ ')' :: rest) := by
    simp
  have hread : r.codec.read {} (depth + 2) (head ++ '(' :: (body ++ ')' :: rest)) =
      r.readFields {} (depth + 2) (gap ++ '(' :: (body ++ ')' :: rest)) := bind_ok hname
  rw [happend, hread]
  exact readFields_lines hvalues hlines hinit hgap hbody rest

theorem IsRecord.exists_cons {owner : String} {text : List Char} (h : IsRecord owner lines text) :
    ∃ c more, text = c :: more ∧ Seen c ∧ c ≠ '#' := by
  obtain @⟨head, body, hhead, -⟩ := h
  cases hhead with
  | nil => exact ⟨'(', _, rfl, by decide, by decide⟩
  | @name word gap h _ =>
    obtain ⟨c, more, htext, hseen, -⟩ := (h.starts.append gap).append ('(' :: (body ++ [')']))
    refine ⟨c, more, htext, hseen, ?_⟩
    rintro rfl
    rw [List.append_assoc] at htext
    exact h.head_ne (by decide) _ (congrArg List.head? htext)

/-- What is read of a text, with gaps around it, is what its codec reads. -/
theorem Codec.decode_append {c : Codec α} {lead text trail : List Char} (hlead : IsGap lead)
    (htrail : IsGap trail) (htext : ∃ first more, text = first :: more ∧ Seen first ∧ first ≠ '#') :
    (∀ a, c.read {} maxDepth (text ++ trail) = .ok (a, trail) →
        c.decode (lead ++ (text ++ trail)) = .ok a) ∧
      ∀ fault, c.read {} maxDepth (text ++ trail) = .error fault →
        c.decode (lead ++ (text ++ trail)) = .error fault := by
  obtain ⟨first, more, rfl, hseen, hmark⟩ := htext
  have hblank : blank (lead ++ (first :: more ++ trail)) = .ok ((), first :: (more ++ trail)) :=
    (hlead.blank_append _).trans (hseen.blank _)
  have hpeek : peek? [] = .ok (none, []) := rfl
  rw [Codec.decode, c.document_eq hblank hmark]
  constructor
  · intro a hread
    rw [List.cons_append] at hread
    rw [bind_ok hread, bind_ok htrail.blank_eq, bind_ok hpeek]
    rfl
  · intro fault hread
    rw [List.cons_append] at hread
    rw [bind_error hread]
    rfl

/-- **The text of a record is read** unless a field is listed twice or, where all are
required, one is left out; if the values are sure to be read, only then is it not. -/
theorem Record.decode_listing {sure : Prop} {P : List Line → α → Prop} {text : List Char}
    (hvalues : ∀ line ∈ lines, Starts line.value)
    (hlines : ∀ done line todo a, lines = done ++ line :: todo → P done a →
      r.TakesLine sure (maxDepth - 2) line a fun a => P (done ++ [line]) a)
    (hinit : P [] r.initial) (htext : IsText r.name lines text) :
    (∃ a, r.codec.decode text = .ok a ∧ P lines a ∧ r.Once lines ∧ r.Complete lines) ∨
      ¬ (sure ∧ r.Once lines ∧ r.Complete lines) ∧ ∃ fault, r.codec.decode text = .error fault := by
  obtain @⟨lead, text, trail, hlead, hrecord, htrail⟩ := htext
  have hdecode := Codec.decode_append (c := r.codec) hlead htrail hrecord.exists_cons
  rcases codec_lines hvalues hlines hinit hrecord trail with ⟨a, hread, hall⟩ | ⟨hnot, fault, hread⟩
  · exact .inl ⟨a, hdecode.1 a hread, hall⟩
  · exact .inr ⟨hnot, fault, hdecode.2 fault hread⟩

end PlantGrammar.Ron
