import Mathlib.Data.List.Nodup
import PlantGrammar.Proofs.Ron.Name
import PlantGrammar.Ron.Codec

/-!
# Lists and records are read back

A codec reads back what it writes, as long as there is depth for it: that is what
`Codec.ReadsBack` says, with the value that is read for the one that was written.
Lists and records have it from their items and fields. Both stand on lines of
their own, so one law of the reader (`Reader.items_lines`) serves both.
-/

namespace PlantGrammar.Ron

open Reader

variable {α β : Type}

/-- What is written of a value is read back as `kept` of it, where a value may end
and `need` steps of depth are left. -/
structure Codec.ReadsBack (c : Codec α) (need : Nat) (kept : α → α) : Prop where
  begins : ∀ level a, Begins ']' (c.write level a)
  read : ∀ level depth a rest, need ≤ depth → Ends rest →
    c.read {} depth (c.write level a ++ rest) = .ok (kept a, rest)

theorem Codec.ReadsBack.mono {c : Codec α} {need need' : Nat} {kept : α → α}
    (h : c.ReadsBack need kept) (hle : need ≤ need') : c.ReadsBack need' kept :=
  ⟨h.begins, fun level depth a rest hdepth =>
    h.read level depth a rest (Nat.le_trans hle hdepth)⟩

/-! ## Lines -/

theorem isBlank_of_mem_indent {level : Nat} : ∀ c ∈ indent level, isBlank c = true := by
  intro c hc
  obtain rfl := (List.mem_replicate.mp hc).2
  decide

theorem writeLines_eq (level : Nat) (opening close : Char) (line : β → List Char)
    (bs : List β) (rest : List Char) :
    writeLines level opening close (bs.map line) ++ rest =
      opening :: '\n' :: (lines (indent (level + 1)) line bs ++
        (indent level ++ close :: rest)) := by
  simp [writeLines, lines, List.flatMap_map, List.append_assoc]

theorem items_indented {σ : Type} {close : Char} {item : σ → Reader σ} {line : β → List Char}
    {bs : List β} {s s' : σ} (level : Nat) (h : ReadsEach item line bs s s')
    (hlines : ∀ b ∈ bs, Begins close (line b)) (hclose : Seen close) (rest : List Char) :
    items close item s ('\n' :: (lines (indent (level + 1)) line bs ++
      (indent level ++ close :: rest))) = .ok (s', close :: rest) := by
  refine items_lines h isBlank_of_mem_indent hlines ?_ hclose
  rw [List.dropWhile_append_of_pos isBlank_of_mem_indent, hclose.dropWhile_isBlank]

/-- Going inside takes a step of depth. -/
theorem inside_succ (r : Nat → Reader α) (depth : Nat) : inside r (depth + 1) = r depth := rfl

/-! ## Lists -/

theorem Codec.ReadsBack.readsEach {c : Codec α} {need : Nat} {kept : α → α}
    (h : c.ReadsBack need kept) (level : Nat) {depth : Nat} (hdepth : need ≤ depth) (xs : List α) :
    ∀ found, ReadsEach (fun found => do return (← inside (c.read {}) (depth + 1)) :: found)
      (c.write level) xs found ((xs.map kept).reverse ++ found) := by
  induction xs with
  | nil => exact fun found => .nil found
  | cons x xs ih =>
    intro found
    have hrest := ih (kept x :: found)
    rw [List.map_cons, List.reverse_cons, List.append_assoc, List.singleton_append]
    refine .cons (fun rest => ?_) hrest
    rw [inside_succ, bind_ok (h.read level depth x _ hdepth (ends_comma rest))]
    rfl

/-- Lists are read back item by item. -/
theorem Codec.ReadsBack.list {c : Codec α} {need : Nat} {kept : α → α}
    (h : c.ReadsBack need kept) : (Codec.list c).ReadsBack (need + 2) (List.map kept) where
  begins level xs := by
    cases xs with
    | nil => exact ⟨'[', _, rfl, by decide, by decide⟩
    | cons x xs => exact ⟨'[', _, rfl, by decide, by decide⟩
  read level depth xs rest hdepth hrest := by
    obtain ⟨depth, rfl⟩ : ∃ inner, depth = inner + 2 := ⟨depth - 2, by omega⟩
    have hclose : Seen ']' := by decide
    have heach := h.readsEach (level + 1) (Nat.le_of_add_le_add_right hdepth) xs []
    rw [List.append_nil] at heach
    obtain ⟨text, htext, hitems⟩ : ∃ text, (Codec.list c).write level xs ++ rest = '[' :: text ∧
        items ']' (fun found => do return (← inside (c.read {}) (depth + 1)) :: found) [] text =
          .ok ((xs.map kept).reverse, ']' :: rest) := by
      cases xs with
      | nil => exact ⟨_, rfl, items_nil hclose [] rest⟩
      | cons x xs =>
        exact ⟨_, writeLines_eq level '[' ']' (c.write (level + 1)) (x :: xs) rest,
          items_indented level heach (fun x _ => h.begins (level + 1) x) hclose rest⟩
    rw [htext, Codec.list]
    dsimp only
    rw [bind_ok (expect_cons '[' text), inside_succ, bind_ok hitems, bind_ok (hclose.blank rest),
      bind_ok (expect_cons ']' rest), List.reverse_reverse]
    rfl

/-! ## Names -/

/-- What has a name of its own is found by it. -/
theorem find?_name (name : β → String) {bs : List β} (hdistinct : (bs.map name).Nodup) {b : β}
    (hb : b ∈ bs) : bs.find? (fun other => (name other).toList == (name b).toList) = some b := by
  induction bs with
  | nil => cases hb
  | cons first bs ih =>
    rw [List.map_cons, List.nodup_cons] at hdistinct
    rcases List.mem_cons.mp hb with rfl | hlater
    · exact List.find?_cons_of_pos (by simp)
    · have hother : name first ≠ name b := by
        intro heq
        exact hdistinct.1 (heq ▸ List.mem_map_of_mem hlater)
      rw [List.find?_cons_of_neg (by simpa [String.toList_inj] using hother)]
      exact ih hdistinct.2 hlater

/-! ## Fields -/

/-- What is written of a field of `a` is read into a record under construction, which
it turns from `b` into `b'`. -/
structure Field.ReadsInto (field : Field α) (need : Nat) (a b b' : α) : Prop where
  begins : ∀ level, Begins ']' (field.write level a)
  read : ∀ level depth rest, need ≤ depth → Ends rest →
    field.read {} depth b (field.write level a ++ rest) = .ok (b', rest)

theorem Codec.ReadsBack.field {c : Codec β} {need : Nat} {kept : β → β}
    (h : c.ReadsBack need kept) (name : String) (get : α → β) (set : β → α → α) (a b : α) :
    (Field.of name get set c).ReadsInto need a b (set (kept (get a)) b) where
  begins level := h.begins level (get a)
  read level depth rest hdepth hrest := by
    rw [Field.of]
    dsimp only
    rw [bind_ok (h.read level depth (get a) rest hdepth hrest)]
    rfl

/-- The fields of `a` are read one after the other. -/
inductive Field.Rebuilds (need : Nat) (a : α) : List (Field α) → α → α → Prop
  | nil (b : α) : Rebuilds need a [] b b
  | cons {field : Field α} {fields : List (Field α)} {b m b' : α}
      (first : field.ReadsInto need a b m) (others : Rebuilds need a fields m b') :
      Rebuilds need a (field :: fields) b b'

/-! ## Records -/

namespace Record

/-- The fields can be told apart by their names, and these be read. -/
structure WellNamed (r : Record α) : Prop where
  names : ∀ field ∈ r.fields, IsPlain field.name.toList
  distinct : (r.fields.map (·.name)).Nodup

variable {r : Record α} {need : Nat} {a : α}

/-- How a field is written: its name, a colon, its value. -/
def line (level : Nat) (a : α) (field : Field α) : List Char :=
  field.name.toList ++ ':' :: ' ' :: field.write level a

/-- A field that was not there before is read by its name. -/
theorem readField_line (hr : r.WellNamed) {field : Field α} (hfield : field ∈ r.fields)
    {b m : α} (h : field.ReadsInto need a b m) {seen : List String} (hnew : field.name ∉ seen)
    (level : Nat) {depth : Nat} (hdepth : need ≤ depth) (rest : List Char) :
    r.readField {} (depth + 1) (b, seen) (line level a field ++ ',' :: rest) =
      .ok ((m, field.name :: seen), ',' :: rest) := by
  let value := field.write level a ++ ',' :: rest
  have hkey : Reader.identifier (line level a field ++ ',' :: rest) =
      .ok (field.name.toList, ':' :: ' ' :: value) := by
    rw [line, List.append_assoc]
    exact identifier_append (hr.names field hfield).isName (endsName_colon _)
  have hvalue : blank (' ' :: value) = .ok ((), value) :=
    ((h.begins level).append (',' :: rest)).blank_space
  rw [readField, inside_succ, bind_ok hkey, find?_name Field.name hr.distinct hfield]
  dsimp only
  rw [if_neg (by simpa using hnew), bind_ok (Seen.blank (by decide) _),
    bind_ok (expect_cons ':' _), bind_ok hvalue, inside_succ,
    bind_ok (h.read level depth _ hdepth (ends_comma rest))]
  rfl

/-- The fields are read one after the other, as none of them comes twice. -/
theorem readsEach (hr : r.WellNamed) (level : Nat) {depth : Nat} (hdepth : need ≤ depth)
    {fields : List (Field α)} {b b' : α} (h : Field.Rebuilds need a fields b b') :
    ∀ seen : List String, (∀ field ∈ fields, field ∈ r.fields) →
      ((fields.map (·.name)).reverse ++ seen).Nodup →
      ReadsEach (r.readField {} (depth + 1)) (line level a) fields (b, seen)
        (b', (fields.map (·.name)).reverse ++ seen) := by
  induction h with
  | nil b => exact fun seen _ _ => .nil _
  | @cons field fields b m b' first others ih =>
    intro seen hfields hdistinct
    obtain ⟨hfield, hfields⟩ := List.forall_mem_cons.mp hfields
    rw [List.map_cons, List.reverse_cons, List.append_assoc, List.singleton_append]
      at hdistinct ⊢
    have hnew : field.name ∉ seen := (List.nodup_cons.mp (List.nodup_append.mp hdistinct).2.1).1
    exact .cons (readField_line hr hfield first hnew level hdepth) (ih _ hfields hdistinct)

/-- The fields of a record are read back in parentheses. -/
theorem readFields_write (hr : r.WellNamed) {b : α}
    (h : Field.Rebuilds need a r.fields r.initial b) (level : Nat) {depth : Nat}
    (hdepth : need + 2 ≤ depth) (rest : List Char) :
    r.readFields {} depth (r.write level a ++ rest) = .ok (b, rest) := by
  obtain ⟨depth, rfl⟩ : ∃ inner, depth = inner + 2 := ⟨depth - 2, by omega⟩
  let seen := (r.fields.map (·.name)).reverse ++ []
  have heach : ReadsEach (r.readField {} (depth + 1)) (line (level + 1) a) r.fields
      (r.initial, []) (b, seen) :=
    readsEach hr (level + 1) (Nat.le_of_add_le_add_right hdepth) h [] (fun _ => id)
      (by rw [List.append_nil, List.nodup_reverse]; exact hr.distinct)
  have hclose : Seen ')' ∧ beginsName ')' = false := by decide
  have hitems := items_indented level heach
    (fun field hfield => ((hr.names field hfield).isName.begins hclose.2).append _) hclose.1 rest
  have hall : r.fields.find? (fun field => !seen.contains field.name) = none := by
    rw [List.find?_eq_none]
    intro field hfield
    simpa [seen] using ⟨field, hfield, rfl⟩
  have htext : r.write level a ++ rest = _ :=
    writeLines_eq level '(' ')' (line (level + 1) a) r.fields rest
  rw [htext, readFields, bind_ok (Seen.blank (by decide) _), bind_ok (expect_cons '(' _),
    inside_succ, bind_assoc, bind_ok hitems]
  dsimp only
  -- whether or not the fields are required, none is missing
  rw [hall, ite_self]
  dsimp only
  rw [pure_bind, bind_ok (Seen.blank hclose.1 rest), bind_ok (expect_cons ')' rest)]
  rfl

/-- A record is read back if reading its fields one after the other builds it again. -/
theorem codec_readsBack (hr : r.WellNamed) {kept : α → α}
    (h : ∀ a, Field.Rebuilds need a r.fields r.initial (kept a)) :
    r.codec.ReadsBack (need + 2) kept where
  begins level a := ⟨'(', _, rfl, by decide, by decide⟩
  read level depth a rest hdepth _ := by
    have hunnamed : r.readName {} (r.write level a ++ rest) =
        .ok ((), r.write level a ++ rest) := by
      have hpeek : peek? (r.write level a ++ rest) =
        .ok (some '(', r.write level a ++ rest) := rfl
      have hparen : Text.continuesName '(' = false := by decide
      rw [readName, bind_ok hpeek, Option.any_some, if_neg (by simp [hparen])]
      rfl
    rw [codec]
    dsimp only
    rw [bind_ok hunnamed]
    exact readFields_write hr (h a) level hdepth rest

end Record

/-! ## Whole texts -/

/-- Without attributes a whole text is what its codec reads, behind the blanks in front. -/
theorem Codec.document_eq (c : Codec α) {text more : List Char} {first : Char}
    (hblank : blank text = .ok ((), first :: more)) (hmark : first ≠ '#') :
    c.document text = (do
      let a ← c.read {} maxDepth
      blank
      if (← peek?).isSome then malformed
      return a : Reader α) (first :: more) := by
  have hpeek : peek? (first :: more) = .ok (some first, first :: more) := rfl
  have hplain : readAttributes (first :: more) {} (first :: more) = .ok ({}, first :: more) := by
    rw [readAttributes, bind_ok hpeek, if_neg (by simpa using hmark)]
    rfl
  rw [document, bind_ok hblank, @bind_ok _ _ (fun cs => readAttributes cs {} cs) _ _ _ _ hplain]

/-- A whole text without attributes is read back. -/
theorem Codec.ReadsBack.decode_encode {c : Codec α} {need : Nat} {kept : α → α}
    (h : c.ReadsBack need kept) (hneed : need ≤ maxDepth) {a : α}
    (hmark : (c.encode a).head? ≠ some '#') : c.decode (c.encode a) = .ok (kept a) := by
  obtain ⟨first, more, htext, hseen, -⟩ := h.begins 0 a
  have hread := h.read 0 maxDepth a [] hneed nofun
  rw [List.append_nil] at hread
  rw [encode, htext] at hmark ⊢
  rw [htext] at hread
  have hblank : blank [] = .ok ((), []) := rfl
  have hend : peek? [] = .ok (none, []) := rfl
  rw [decode, c.document_eq (hseen.blank more) (by simpa using hmark), bind_ok hread,
    bind_ok hblank, bind_ok hend]
  rfl

end PlantGrammar.Ron
