import PlantGrammar.Proofs.Ron.Listing
import PlantGrammar.Proofs.Ron.Typed

/-!
# Records that are refused

A record is refused where one of its fields is, in spite of whatever stands in the other
fields. For that each of these, if it is read, has to be taken whole: a record that is read
out of a value of the notation is taken up to its closing parenthesis
(`Record.whole_codec`). Then the law of the run over the lines tells that no reading gets
behind a field that is refused, listed twice or left out.
-/

namespace PlantGrammar.Ron

open Reader

variable {α β : Type} {r : Record α} {lines : List Line} {body cs rest : List Char}

/-! ## Records where another kind is expected -/

/-- Entries whose keys spell names are lines. -/
theorem exists_lines {entries : List Entry} (h : ∀ e ∈ entries, ∃ name, Spells name e.key) :
    ∃ lines : List Line, lines.map Line.toEntry = entries := by
  induction entries with
  | nil => exact ⟨[], rfl⟩
  | cons e entries ih =>
    obtain ⟨⟨name, hname⟩, hentries⟩ := List.forall_mem_cons.mp h
    obtain ⟨lines, rfl⟩ := ih hentries
    exact ⟨⟨e, name, hname⟩ :: lines, rfl⟩

/-- What stands in the parentheses of a value that a record may be read of: values between
commas, or lines. -/
inductive IsContent (inner : Nat) : List Char → Prop
  | values {values : List (List Char)} {body : List Char} (hbody : Sequence values body)
      (hvalues : ∀ v ∈ values, IsValue inner v) : IsContent inner body
  | lines {lines : List Line} {body : List Char}
      (hbody : Sequence (lines.map fun line => line.text) body)
      (hvalues : ∀ line ∈ lines, IsValue inner line.value) : IsContent inner body

/-- A parenthesis opens a text, or opens behind a name at its beginning, in front of `more`. -/
def Opens (cs more : List Char) : Prop :=
  ∃ mid, (mid = cs ∨ ∃ name, Reader.identifier cs = .ok (name, mid)) ∧
    blank mid = .ok ((), '(' :: more)

section Opens

variable {name word gap head tail more text : List Char}

/-- A text that begins with no name begins with the parenthesis. -/
theorem Opens.eq_of_not_name {fault : Fault} (h : Opens cs more) (hblank : blank cs = .ok ((), cs))
    (hname : Reader.identifier cs = .error fault) : cs = '(' :: more := by
  obtain ⟨mid, rfl | ⟨name, hname'⟩, hopen⟩ := h
  · rw [hblank] at hopen
    exact (Prod.mk.inj (Except.ok.inj hopen)).2
  · rw [hname] at hname'
    cases hname'

/-- In a text that begins with a name the parenthesis stands behind it. -/
theorem Opens.blank_of_name (h : Opens (word ++ rest) more) (hword : Spells name word)
    (hrest : EndsName rest) : blank rest = .ok ((), '(' :: more) := by
  obtain ⟨mid, rfl | ⟨name', hname⟩, hopen⟩ := h
  · rw [(hword.starts.append rest).blank] at hopen
    have htext : word ++ rest = '(' :: more := (Prod.mk.inj (Except.ok.inj hopen)).2
    exact absurd (congrArg List.head? htext) (hword.head_ne (by decide) rest)
  · rw [hword.identifier_append hrest] at hname
    cases hname
    exact hopen

/-- Between a name and its parenthesis there may be a gap. -/
theorem Opens.eq_of_gap (h : Opens (word ++ (gap ++ '(' :: tail)) more) (hword : Spells name word)
    (hgap : IsGap gap) : more = tail := by
  have hblank := h.blank_of_name hword (hgap.endsName_append (endsName_paren tail))
  rw [hgap.blank_append, Seen.blank (by decide)] at hblank
  cases hblank
  rfl

theorem Opens.eq_of_head (h : Opens (head ++ '(' :: tail) more) (hhead : IsHead head) :
    more = tail := by
  cases hhead with
  | nil =>
    have hblank : blank ('(' :: tail) = .ok ((), '(' :: tail) := Seen.blank (by decide) tail
    have htext := h.eq_of_not_name hblank (identifier_of_head (by rintro c ⟨⟩; decide))
    exact (List.cons.inj htext).2.symm
  | name hword _ hgap =>
    rw [List.append_assoc] at h
    exact h.eq_of_gap hword hgap

/-- The only literal that begins with a parenthesis is the unit. -/
theorem IsLiteral.eq_unit (h : IsLiteral text) (htext : text ++ rest = '(' :: more) :
    text = ['(', ')'] := by
  have hnumber : (∃ c digits, text = c :: digits ∧ beginsNumber c = true) → False := by
    rintro ⟨c, digits, rfl, hc⟩
    obtain ⟨rfl, -⟩ := List.cons.inj htext
    revert hc
    decide
  cases h with
  | unit => rfl
  | integer h => exact (hnumber h.exists_cons).elim
  | float h => exact (hnumber h.exists_cons).elim
  | _ => cases (List.cons.inj htext).1

end Opens

/-- The parenthesis at the beginning of a value, or behind its name, encloses the rest of
the value. -/
theorem IsValue.content {n : Nat} {text more : List Char} (h : IsValue n text)
    (hrest : Follows rest) (hopen : Opens (text ++ rest) more) :
    ∃ inner body, more = body ++ ')' :: rest ∧ IsContent inner body := by
  have hblank : blank (text ++ rest) = .ok ((), text ++ rest) := (h.starts.append rest).blank
  cases h with
  | literal h =>
    have htext := hopen.eq_of_not_name hblank (h.identifier_append rest)
    obtain rfl := h.eq_unit htext
    exact ⟨0, [], (List.cons.inj htext).2.symm, .values (.nil .nil) nofun⟩
  | name h _ =>
    obtain ⟨after, hafter, henders⟩ := hrest
    have hparen := hopen.blank_of_name h (endsName_of_ends (Follows.ends ⟨after, hafter, henders⟩))
    rw [hafter] at hparen
    cases hparen
    exact absurd (henders '(' rfl) (by decide)
  | @optional inner _ gap v body hgap hbody hvalue _ =>
    have htext : "Some".toList ++ (gap ++ '(' :: (body ++ [')'])) ++ rest =
        "Some".toList ++ (gap ++ '(' :: (body ++ ')' :: rest)) := by simp
    rw [htext] at hopen
    exact ⟨inner, body, hopen.eq_of_gap spells_some hgap, .values hbody (by simpa using hvalue)⟩
  | list _ _ _ =>
    have htext := hopen.eq_of_not_name hblank (identifier_of_head (by rintro c ⟨⟩; decide))
    cases (List.cons.inj htext).1
  | map _ _ _ _ =>
    have htext := hopen.eq_of_not_name hblank (identifier_of_head (by rintro c ⟨⟩; decide))
    cases (List.cons.inj htext).1
  | @tuple inner _ head _ body hhead hbody hvalues _ =>
    have htext : head ++ '(' :: (body ++ [')']) ++ rest = head ++ '(' :: (body ++ ')' :: rest) := by
      simp
    rw [htext] at hopen
    exact ⟨inner, body, hopen.eq_of_head hhead, .values hbody hvalues⟩
  | @record inner _ head entries body hhead _ hbody hkeys hvalues _ =>
    have htext : head ++ '(' :: (body ++ [')']) ++ rest = head ++ '(' :: (body ++ ')' :: rest) := by
      simp
    rw [htext] at hopen
    obtain ⟨lines, rfl⟩ := exists_lines hkeys
    rw [List.map_map] at hbody
    exact ⟨inner, body, hopen.eq_of_head hhead,
      .lines hbody fun line hline => hvalues _ (List.mem_map_of_mem hline)⟩

namespace Record

theorem readName_eq_ok {mid : List Char} (h : r.readName {} cs = .ok ((), mid)) :
    mid = cs ∨ ∃ name, Reader.identifier cs = .ok (name, mid) := by
  have hpeek : peek? cs = .ok (cs.head?, cs) := rfl
  rw [readName, bind_ok hpeek] at h
  split at h
  · obtain ⟨name, mid', hname, hpure⟩ := bind_eq_ok.mp h
    split at hpure
    · cases hpure
    · cases hpure
      exact .inr ⟨name, hname⟩
  · cases h
    exact .inl rfl

/-- Whatever value a line has is taken whole, or not up to its end. -/
theorem takesLine_of_whole
    (hfields : ∀ field ∈ r.fields, ∀ depth a, Whole (field.read {} depth a)) {inner : Nat}
    {line : Line} (hvalue : IsValue inner line.value) (depth : Nat) (a : α) :
    r.TakesLine False depth line a fun _ => True := by
  rw [TakesLine]
  cases hfield : r.field? line.name with
  | none => exact whole_value depth inner _ hvalue
  | some field => exact hfields field (field?_eq_some hfield).1 depth a inner _ hvalue

theorem readField_whole
    (hfields : ∀ field ∈ r.fields, ∀ depth a, Whole (field.read {} depth a)) {inner : Nat}
    {line : Line} (hvalue : IsValue inner line.value) (depth : Nat) (s : α × List String) :
    Takes False (r.readField {} depth s) line.text fun _ => True := by
  cases depth with
  | zero =>
    refine takes_of_ok fun rest hrest s' cs hread => ?_
    obtain ⟨key, mid, hkey, -⟩ := bind_eq_ok.mp hread
    cases hkey
  | succ depth =>
    have hline := takesLine_of_whole hfields hvalue depth s.1
    rw [TakesLine] at hline
    intro rest hrest
    rw [readField_text line hvalue.starts]
    cases hfield : r.field? line.name with
    | none =>
      rw [hfield] at hline
      exact (hline.map (f := fun _ => s) fun _ => id) rest hrest
    | some field =>
      rw [hfield] at hline
      dsimp only
      split
      · exact .inr ⟨not_false, by rintro _ _ ⟨⟩⟩
      · exact (hline.map (f := fun a => (a, field.name :: s.2)) fun _ => id) rest hrest

/-- A field begins with a name and a colon. -/
theorem readField_eq_ok {depth : Nat} {s s' : α × List String}
    (h : r.readField {} depth s cs = .ok (s', rest)) :
    ∃ name mid more, Reader.identifier cs = .ok (name, mid) ∧
      blank mid = .ok ((), ':' :: more) := by
  obtain ⟨name, mid, hname, hfield⟩ := bind_eq_ok.mp h
  have hcolon : ∀ {f : Unit → Reader (α × List String)},
      (blank >>= fun _ => expect ':' >>= f) mid = .ok (s', rest) →
      ∃ more, blank mid = .ok ((), ':' :: more) := by
    intro f h
    obtain ⟨⟨⟩, after, hblank, hmore⟩ := bind_eq_ok.mp h
    obtain ⟨⟨⟩, more, hexpect, -⟩ := bind_eq_ok.mp hmore
    rw [expect_eq_ok.mp hexpect] at hblank
    exact ⟨more, hblank⟩
  cases depth with
  | zero => cases hname
  | succ depth =>
    obtain ⟨more, hmore⟩ : ∃ more, blank mid = .ok ((), ':' :: more) := by
      dsimp only at hfield
      cases hfind : r.fields.find? (fun field => field.name.toList == name) with
      | none =>
        rw [hfind] at hfield
        exact hcolon hfield
      | some field =>
        rw [hfind] at hfield
        dsimp only at hfield
        split at hfield
        · cases hfield
        · exact hcolon hfield
    exact ⟨name, mid, more, hname, hmore⟩

/-- Values without keys are not read as fields. -/
theorem eq_nil_of_values {inner depth : Nat} {values : List (List Char)} {s s' : α × List String}
    (hbody : Sequence values body) (hvalues : ∀ v ∈ values, IsValue inner v)
    (h : items ')' (r.readField {} depth) s (body ++ ')' :: rest) = .ok (s', cs)) :
    values = [] := by
  have hnames := namesFields_values hbody hvalues rest
  cases values with
  | nil => rfl
  | cons v values =>
    obtain ⟨before, behind, mark, more, hbefore, -, -, htext⟩ := hbody.exists_first ')' rest
    obtain ⟨c, tail, htail, hseen, hc⟩ :=
      (hvalues v List.mem_cons_self).starts.append (behind ++ mark :: more)
    have hblank : blank (body ++ ')' :: rest) = .ok ((), c :: tail) := by
      rw [htext, hbefore.blank_append, htail, hseen.blank]
    have hclose : c ≠ ')' := by
      rintro rfl
      exact hc (by decide)
    obtain ⟨f, fuel, hfuel⟩ : ∃ f fuel, body ++ ')' :: rest = f :: fuel :=
      List.exists_cons_of_ne_nil (by simp)
    rw [hfuel] at hnames hblank h
    rw [items, itemsWith_cons hblank hclose, if_pos rfl] at h
    obtain ⟨s'', mid, hfield, -⟩ := bind_eq_ok.mp h
    obtain ⟨name, mid', colon, hname, hcolon⟩ := readField_eq_ok hfield
    rw [namesFields_of_ok hblank hname hcolon] at hnames
    cases hnames

/-- Whatever stands between the parentheses is read up to the closing one. -/
theorem rest_eq_of_content {inner depth : Nat} {s s' : α × List String}
    (hfields : ∀ field ∈ r.fields, ∀ depth a, Whole (field.read {} depth a))
    (hcontent : IsContent inner body)
    (h : items ')' (r.readField {} depth) s (body ++ ')' :: rest) = .ok (s', cs)) :
    cs = ')' :: rest := by
  cases hcontent with
  | values hbody hvalues =>
    obtain rfl := eq_nil_of_values hbody hvalues h
    exact items_eq_ok (by decide) (by decide) (fun _ v hv => absurd hv List.not_mem_nil) hbody
      nofun h
  | lines hbody hvalues =>
    refine items_eq_ok (by decide) (by decide) (fun s v hv => ?_) hbody (fun v hv => ?_) h
    · obtain ⟨line, hline, rfl⟩ := List.mem_map.mp hv
      exact readField_whole hfields (hvalues line hline) depth s
    · obtain ⟨line, -, rfl⟩ := List.mem_map.mp hv
      exact line.spells.starts.append _

/-- Records are taken whole if their fields are. -/
theorem whole_codec (hfields : ∀ field ∈ r.fields, ∀ depth a, Whole (field.read {} depth a)) :
    r.codec.Whole := by
  intro depth n text hvalue
  refine takes_of_ok fun rest hrest a cs hread => .inl ?_
  obtain ⟨⟨⟩, mid, hname, hread⟩ := bind_eq_ok.mp hread
  obtain ⟨⟨⟩, opened, hblank, hread⟩ := bind_eq_ok.mp hread
  obtain ⟨⟨⟩, more, hopen, hread⟩ := bind_eq_ok.mp hread
  obtain ⟨a, behind, hinside, hread⟩ := bind_eq_ok.mp hread
  obtain ⟨⟨⟩, closed, hblank', hread⟩ := bind_eq_ok.mp hread
  obtain ⟨⟨⟩, last, hclose, hread⟩ := bind_eq_ok.mp hread
  cases hread
  rw [expect_eq_ok.mp hopen] at hblank
  obtain ⟨inner, body, rfl, hcontent⟩ := hvalue.content hrest ⟨mid, readName_eq_ok hname, hblank⟩
  cases depth with
  | zero => cases hinside
  | succ depth =>
    obtain ⟨s, mid', hitems, hfields'⟩ := bind_eq_ok.mp hinside
    obtain rfl := rest_eq_of_content hfields hcontent hitems
    dsimp only at hfields'
    cases hmissing : r.missing? s.2 with
    | some field =>
      rw [missing?] at hmissing
      rw [hmissing] at hfields'
      cases hfields'
    | none =>
      rw [missing?] at hmissing
      rw [hmissing] at hfields'
      cases hfields'
      rw [Seen.blank (by decide) rest] at hblank'
      cases hblank'
      cases expect_eq_ok.mp hclose
      rfl

end Record

/-! ## What is refused -/

/-- Nothing is read of a text, wherever a value may end behind it and however much depth
there is. -/
def Codec.Refuses (c : Codec α) (need : Nat) (text : List Char) : Prop :=
  ∀ depth, need ≤ depth → ∀ rest, Follows rest → ∃ fault,
    c.read {} depth (text ++ rest) = .error fault

namespace Record

variable {text : List Char} {need : Nat}

/-- A record is refused where a field is listed twice or a required one left out. -/
theorem refuses_of_lines
    (hfields : ∀ field ∈ r.fields, ∀ depth a, Whole (field.read {} depth a))
    (htext : IsRecord r.name lines text) (hvalues : ∀ line ∈ lines, ∃ n, IsValue n line.value)
    (h : ¬ (r.Once lines ∧ r.Complete lines)) : r.codec.Refuses 2 text := by
  intro depth hdepth rest _
  obtain ⟨depth, rfl⟩ : ∃ below, depth = below + 2 := ⟨depth - 2, by omega⟩
  have hstarts : ∀ line ∈ lines, Starts line.value := fun line hline =>
    (hvalues line hline).elim fun _ h => h.starts
  have hlines : ∀ done line todo a, lines = done ++ line :: todo → True →
      r.TakesLine False depth line a fun _ => True := by
    rintro done line todo a rfl -
    obtain ⟨n, hvalue⟩ := hvalues line (List.mem_append_right _ List.mem_cons_self)
    exact takesLine_of_whole hfields hvalue depth a
  rcases codec_lines (P := fun _ _ => True) hstarts hlines trivial htext rest with
    ⟨a, -, -, hall⟩ | ⟨-, hfault⟩
  · exact absurd hall h
  · exact hfault

/-- A record is refused where the value of one of its fields is. -/
theorem refuses_of_line
    (hfields : ∀ field ∈ r.fields, ∀ depth a, Whole (field.read {} depth a))
    (htext : IsRecord r.name lines text) (hvalues : ∀ line ∈ lines, ∃ n, IsValue n line.value)
    {bad : Line} (hbad : bad ∈ lines) {field : Field α} (hfield : r.field? bad.name = some field)
    (h : ∀ depth, need ≤ depth → ∀ a rest, Follows rest → ∃ fault,
      field.read {} depth a (bad.value ++ rest) = .error fault) :
    r.codec.Refuses (need + 2) text := by
  intro depth hdepth rest _
  obtain ⟨depth, rfl⟩ : ∃ below, depth = below + 2 := ⟨depth - 2, by omega⟩
  have hstarts : ∀ line ∈ lines, Starts line.value := fun line hline =>
    (hvalues line hline).elim fun _ h => h.starts
  have hlines : ∀ done line todo a, lines = done ++ line :: todo → bad ∉ done →
      r.TakesLine False depth line a fun _ => bad ∉ done ++ [line] := by
    rintro done line todo a rfl hdone
    by_cases hline : bad = line
    · subst hline
      rw [TakesLine, hfield]
      intro rest hrest
      obtain ⟨fault, hfault⟩ := h depth (by omega) a rest hrest
      refine .inr ⟨not_false, fun a' cs hread => ?_⟩
      rw [hfault] at hread
      cases hread
    · have hnext : bad ∉ done ++ [line] := by simp [hdone, hline]
      obtain ⟨n, hvalue⟩ := hvalues line (List.mem_append_right _ List.mem_cons_self)
      exact (takesLine_of_whole hfields hvalue depth a).mono fun _ _ => hnext
  rcases codec_lines (P := fun done _ => bad ∉ done) hstarts hlines List.not_mem_nil htext rest with
    ⟨a, -, hnone, -⟩ | ⟨-, hfault⟩
  · exact absurd hbad hnone
  · exact hfault

end Record

namespace Codec

theorem Refuses.mono {c : Codec α} {need need' : Nat} {text : List Char} (h : c.Refuses need text)
    (hle : need ≤ need') : c.Refuses need' text :=
  fun depth hdepth => h depth (hle.trans hdepth)

theorem Refuses.field {c : Codec β} {need : Nat} {text : List Char} (h : c.Refuses need text)
    (name : String) (get : α → β) (set : β → α → α) : ∀ depth, need ≤ depth → ∀ a rest,
      Follows rest → ∃ fault, (Field.of name get set c).read {} depth a (text ++ rest) =
        .error fault := by
  intro depth hdepth a rest hrest
  obtain ⟨fault, hfault⟩ := h depth hdepth rest hrest
  exact ⟨fault, bind_error hfault⟩

/-- A list is refused where one of its items is. -/
theorem Refuses.list {c : Codec β} {need : Nat} {values : List (List Char)} {bad : List Char}
    (hc : c.Whole) (hbody : Sequence values body) (hvalues : ∀ v ∈ values, ∃ n, IsValue n v)
    (hbad : bad ∈ values) (h : c.Refuses need bad) :
    (Codec.list c).Refuses (need + 2) ('[' :: (body ++ [']'])) := by
  intro depth hdepth rest _
  obtain ⟨depth, rfl⟩ : ∃ below, depth = below + 2 := ⟨depth - 2, by omega⟩
  let Inv : List (List Char) → List β → Prop := fun vs _ =>
    bad ∈ vs ∧ ∀ v ∈ vs, ∃ n, IsValue n v
  have hstep : ∀ v vs (found : List β), Inv (v :: vs) found →
      Takes False (do return (← inside (c.read {}) (depth + 1)) :: found) v (Inv vs) := by
    rintro v vs found ⟨hmem, hvs⟩
    obtain ⟨⟨n, hvalue⟩, hvs⟩ := List.forall_mem_cons.mp hvs
    suffices htakes : Takes False (inside (c.read {}) (depth + 1)) v fun _ => Inv vs found from
      htakes.map fun _ => id
    rcases List.mem_cons.mp hmem with rfl | hmem
    · intro rest hrest
      obtain ⟨fault, hfault⟩ := h depth (by omega) rest hrest
      refine .inr ⟨not_false, fun x cs hread => ?_⟩
      rw [inside_succ, hfault] at hread
      cases hread
    · exact (hc depth n v hvalue).mono id fun _ _ => ⟨hmem, hvs⟩
  have hclose : ']' ∈ enders ∧ ']' ≠ ',' := by decide
  have hstarts : ∀ v ∈ values, Starts v := fun v hv => (hvalues v hv).elim fun _ h => h.starts
  have hstart : Inv values [] := ⟨hbad, hvalues⟩
  have happend : '[' :: (body ++ [']']) ++ rest = '[' :: (body ++ ']' :: rest) := by simp
  rw [happend, Codec.list]
  dsimp only
  rw [bind_ok (expect_cons '[' _), inside_succ]
  rcases items_sequence hclose.1 hclose.2 hstep hbody hstarts hstart rest with
    ⟨found, -, hnone, -⟩ | ⟨-, fault, hfault⟩
  · exact absurd hnone List.not_mem_nil
  · exact ⟨fault, bind_error hfault⟩

/-- The text of a value that is refused is refused, with gaps around it. -/
theorem Refuses.decode {c : Codec α} {need : Nat} {lead text trail : List Char}
    (h : c.Refuses need text) (hneed : need ≤ maxDepth) (hlead : IsGap lead) (htrail : IsGap trail)
    (hfirst : ∃ first more, text = first :: more ∧ Seen first ∧ first ≠ '#') :
    ∃ fault, c.decode (lead ++ (text ++ trail)) = .error fault := by
  obtain ⟨fault, hfault⟩ := h maxDepth hneed trail (follows_gap htrail)
  exact ⟨fault, (decode_append hlead htrail hfirst).2 fault hfault⟩

end Codec

end PlantGrammar.Ron
