import PlantGrammar.Proofs.Ron.Literal

/-!
# Values of any kind are passed over

A value of the grammar is passed over up to where a value may end behind it, if there is
depth enough for it: by induction on the grammar, where what stands in brackets is a
sequence of values or of entries.
-/

namespace PlantGrammar.Ron

open Reader Text

variable {name text body rest after cs : List Char}

/-! ## Names -/

/-- A gap, if there is one, may stand behind a value. -/
theorem IsGap.eq_nil_or_ends {gap : List Char} (h : IsGap gap) (rest : List Char) :
    gap = [] ∨ Ends (gap ++ rest) := by
  cases h with
  | nil => exact .inl rfl
  | blank hblank _ => exact .inr (ends_cons (mem_stops_of_isBlank hblank) _)
  | line _ _ => exact .inr (ends_cons (by decide) _)
  | comment _ _ => exact .inr (ends_cons (by decide) _)

/-- A gap ends a name. -/
theorem IsGap.endsName_append {gap : List Char} (h : IsGap gap) (hrest : EndsName rest) :
    EndsName (gap ++ rest) := by
  rcases h.eq_nil_or_ends rest with rfl | hends
  · exact hrest
  · exact endsName_of_ends hends

theorem Spells.identifier_append (h : Spells name text) (hrest : EndsName rest) :
    identifier (text ++ rest) = .ok (name, rest) := by
  cases h with
  | plain h => exact Ron.identifier_append h hrest
  | raw hname h =>
    obtain ⟨c, more, rfl⟩ := List.exists_cons_of_ne_nil hname
    have hspan : (c :: more ++ rest).span isRawName = (c :: more, rest) :=
      Text.span_append h fun d hd => (hrest d hd).1
    have hr : beginsName 'r' = true := by decide
    have hquoted : beginsQuoted ('r' :: '#' :: (c :: more ++ rest)) = false := by
      have hc := h c List.mem_cons_self
      have hmarks : isRawName '"' = false ∧ isRawName '#' = false := by decide
      rw [beginsQuoted.eq_def]
      split <;> simp_all
    rw [List.cons_append, List.cons_append, identifier.eq_def]
    dsimp only
    rw [hr, hquoted, if_neg (by decide)]
    change (if ((c :: more ++ rest).span isRawName).1.isEmpty then Except.error Fault.malformed
      else Except.ok ((c :: more ++ rest).span isRawName)) = _
    rw [hspan]
    rfl

theorem Spells.exists_cons (h : Spells name text) :
    ∃ c more, text = c :: more ∧ beginsName c = true := by
  cases h with
  | plain h =>
    cases name with
    | nil => cases h.1
    | cons c more => exact ⟨c, more, rfl, h.1⟩
  | raw _ _ => exact ⟨'r', _, rfl, by decide⟩

theorem Spells.starts (h : Spells name text) : Starts text := by
  have hstops : stops.any beginsName = false := by decide +kernel
  obtain ⟨c, more, rfl, hc⟩ := h.exists_cons
  exact starts_cons (fun hmem => List.any_eq_false.mp hstops c hmem hc) more

/-- A name begins with no bracket. -/
theorem Spells.head_ne (h : Spells name text) {mark : Char} (hmark : beginsName mark = false)
    (rest : List Char) : (text ++ rest).head? ≠ some mark := by
  obtain ⟨c, more, rfl, hc⟩ := h.exists_cons
  rintro ⟨⟩
  rw [hmark] at hc
  cases hc

/-- A name is only taken for a word that it is. -/
theorem Spells.keyword?_eq_none (h : Spells name text) (hrest : EndsName rest) {w : String}
    (hw : w ∈ words) (hne : text ≠ w.toList) : keyword? w (text ++ rest) = none := by
  cases h with
  | plain h =>
    rw [Option.eq_none_iff_forall_ne_some]
    intro behind hkeyword
    obtain ⟨htext, hbehind⟩ := keyword?_eq_some_iff.mp hkeyword
    have hletters : ∀ w ∈ words, w.toList.all continuesName = true := by decide
    have hspan := Text.span_append h.2 hrest.continuesName_eq_false
    rw [htext, Text.span_append (List.all_eq_true.mp (hletters w hw)) hbehind,
      Prod.mk.injEq] at hspan
    exact hne hspan.1.symm
  | raw _ _ => exact keyword?_eq_none_of_head (by rintro c ⟨⟩; decide) w hw

variable {d : Dialect} {visit : Option (Bool → Reader Unit)} {item : Option (Reader Unit)}

/-- Behind a name that is no word a parenthesis tells a record. -/
theorem valueWith_name (h : Spells name text) (hword : ∀ w ∈ words, text ≠ w.toList)
    (hrest : EndsName rest) (hblank : blank rest = .ok ((), after)) :
    (∀ more, after = '(' :: more →
      valueWith d visit item (text ++ rest) = parenthesised visit item more) ∧
      (after.head? ≠ some '(' → valueWith d visit item (text ++ rest) = .ok ((), after)) := by
  obtain ⟨hvalues, hsome⟩ :=
    findSome?_words fun w hw => h.keyword?_eq_none hrest hw (hword w hw)
  rw [valueWith.eq_def, hvalues, hsome, after?_unit_of_head (h.head_ne (by decide) rest)]
  dsimp only
  rw [h.identifier_append hrest]
  dsimp only
  rw [hblank]
  constructor
  · rintro more rfl
    rfl
  · intro hafter
    dsimp only [bind, Except.bind]
    split
    · exact absurd rfl hafter
    · rfl

/-- A name alone is passed over. -/
theorem valueWith_name_append (h : Spells name text) (hsome : text ≠ "Some".toList)
    (hrest : Follows rest) :
    ∃ cs, valueWith d visit item (text ++ rest) = .ok ((), cs) ∧ blank cs = blank rest := by
  by_cases hword : ∀ w ∈ words, text ≠ w.toList
  · obtain ⟨after, hblank, hafter⟩ := hrest
    have hends : EndsName rest := endsName_of_ends (Follows.ends ⟨after, hblank, hafter⟩)
    refine ⟨after, ?_, (blank_idem hblank).trans hblank.symm⟩
    exact (valueWith_name h hword hends hblank).2 fun hparen =>
      absurd (hafter '(' hparen) (by decide)
  · simp only [not_forall, ne_eq, not_not] at hword
    obtain ⟨w, hw, rfl⟩ := hword
    have hvalue : w ∈ valueWords := (List.mem_cons.mp hw).resolve_left fun heq => hsome (heq ▸ rfl)
    have hwords : ∀ w ∈ valueWords, IsWord w := by decide
    have hself := keyword?_append w hrest.ends
    have hfound : valueWords.findSome? (keyword? · (w.toList ++ rest)) = some rest :=
      findSome?_eq_some_of_unique hvalue hself fun u hu behind hbehind =>
        ((hwords u hu).unique (hwords w hvalue) hbehind hself).2
    refine ⟨rest, ?_, rfl⟩
    rw [valueWith.eq_def, hfound]

/-! ## Depth -/

namespace Reader

/-- The reader of a value one step further inside, as far as there is depth. -/
def visitAt : Nat → Option (Bool → Reader Unit)
  | 0 => none
  | depth + 1 => some (valueIn {} depth)

/-- The reader of an item two steps further inside, as far as there is depth. -/
def itemAt : Nat → Option (Reader Unit)
  | depth + 2 => some (value {} depth)
  | _ => none

theorem value_eq : ∀ depth, value {} depth = valueWith {} (visitAt depth) (itemAt depth)
  | 0 | 1 | _ + 2 => rfl

/-- Without an extension of the notation an optional value holds an ordinary one. -/
theorem valueIn_true : ∀ depth, valueIn {} depth true = value {} depth
  | 0 | 1 | _ + 2 => rfl

/-! ## Brackets -/

/-- Wherever a value may end behind a text, the reader passes over the text. -/
def PassesOver (r : Reader Unit) (text : List Char) : Prop := Takes True r text fun _ => True

theorem passesOver_iff {r : Reader Unit} : PassesOver r text ↔
    ∀ rest, Follows rest → ∃ cs, r (text ++ rest) = .ok ((), cs) ∧ blank cs = blank rest := by
  constructor
  · intro h rest hrest
    rcases h rest hrest with ⟨⟨⟩, cs, hread, hblank, -⟩ | ⟨hnot, -⟩
    · exact ⟨cs, hread, hblank⟩
    · exact absurd trivial hnot
  · intro h rest hrest
    obtain ⟨cs, hread, hblank⟩ := h rest hrest
    exact .inl ⟨(), cs, hread, hblank, trivial⟩

/-- A sequence in brackets is passed over. -/
theorem enclosed_sequence {α : Type} {close : Char} {visit : Option α} {item : Reader Unit}
    {vs : List (List Char)} (hclose : close ∈ enders) (hcomma : close ≠ ',')
    (hvisit : visit.isSome = true) (hbody : Sequence vs body)
    (hvs : ∀ v ∈ vs, Starts v ∧ PassesOver item v) (rest : List Char) :
    enclosed close visit item (body ++ close :: rest) = .ok ((), rest) := by
  obtain ⟨found, rfl⟩ := Option.isSome_iff_exists.mp hvisit
  rcases items_each hclose hcomma (fun (_ : Unit) v hv => (hvs v hv).2) hbody
    (fun v hv => (hvs v hv).1) () rest with ⟨⟨⟩, hitems⟩ | ⟨hnot, -⟩
  · have hlisted : listed close (some found) item (body ++ close :: rest) =
        .ok ((), close :: rest) := by
      rw [listed, bind_ok hitems]
      exact (seen_of_mem_enders close hclose).blank rest
    rw [enclosed, bind_ok hlisted, expect_cons]
  · exact absurd trivial hnot

/-- A key and a value are passed over with the colon and the gaps between them. -/
theorem entry_passesOver {key value : Reader Unit} {e : Entry} (hvalue' : Starts e.value)
    (hkey : PassesOver key e.key) (hvalue : PassesOver value e.value) :
    PassesOver (entry key value) e.text := by
  rw [passesOver_iff] at hkey hvalue ⊢
  intro rest hrest
  let behind := e.behind ++ (e.value ++ rest)
  have htext : e.text ++ rest = e.key ++ (e.before ++ ':' :: behind) := by
    simp [Entry.text, behind]
  have hcolon : Seen ':' := by decide
  have hfollows : Follows (':' :: behind) := follows_cons (by decide) behind
  obtain ⟨cs, hread, hblank⟩ := hkey _ (hfollows.append e.isGap_before)
  rw [e.isGap_before.blank_append, hcolon.blank behind] at hblank
  obtain ⟨cs', hread', hblank'⟩ := hvalue rest hrest
  have hgap : blank behind = .ok ((), e.value ++ rest) :=
    (e.isGap_behind.blank_append _).trans (hvalue'.append rest).blank
  refine ⟨cs', ?_, hblank'⟩
  rw [htext, entry, bind_ok hread, bind_ok hblank, bind_ok (expect_cons ':' behind), bind_ok hgap,
    hread']

/-- A name is passed over as a key. -/
theorem identifier_passesOver (h : Spells name text) :
    PassesOver (do let _ ← identifier) text := by
  rw [passesOver_iff]
  intro rest hrest
  have hname := h.identifier_append (endsName_of_ends hrest.ends)
  exact ⟨rest, bind_ok hname, rfl⟩

/-! ## Parentheses -/

theorem namesFields_of_error {fault : Fault} (h : blank cs = .ok ((), after))
    (hname : identifier after = .error fault) : namesFields cs = .ok (false, cs) := by
  simp only [namesFields, h, hname, bind, Except.bind, pure, Except.pure]

theorem namesFields_of_ok (h : blank cs = .ok ((), after))
    (hname : identifier after = .ok (name, rest)) {behind : List Char}
    (hrest : blank rest = .ok ((), behind)) :
    namesFields cs = .ok (decide (behind.head? = some ':'), cs) := by
  simp only [namesFields, h, hname, hrest, bind, Except.bind, pure, Except.pure]

/-- Behind a head there are parentheses. -/
theorem valueWith_head {head : List Char} (h : IsHead head) (hbody : ∀ c ∈ body.head?, c ≠ ')')
    (hempty : body = [] → head ≠ []) :
    valueWith d visit item (head ++ '(' :: (body ++ ')' :: rest)) =
      parenthesised visit item (body ++ ')' :: rest) := by
  cases h with
  | nil =>
    have hunit : after? ['(', ')'] ('(' :: (body ++ ')' :: rest)) = none := by
      cases body with
      | nil => exact absurd rfl (hempty rfl)
      | cons c body =>
        have hc : ')' ≠ c := Ne.symm (hbody c rfl)
        simp [after?, hc]
    have hname : identifier ('(' :: (body ++ ')' :: rest)) = .error .malformed :=
      identifier_of_head (by rintro c ⟨⟩; decide)
    exact valueWith_of_not_name (by rintro c ⟨⟩; decide) hunit hname
  | @name name text gap hname hword hgap =>
    have hblank : blank (gap ++ '(' :: (body ++ ')' :: rest)) =
        .ok ((), '(' :: (body ++ ')' :: rest)) :=
      (hgap.blank_append _).trans (Seen.blank (by decide) _)
    rw [List.append_assoc]
    exact (valueWith_name hname hword (hgap.endsName_append (endsName_paren _)) hblank).1 _ rfl

/-- Parentheses hold fields if the first item is a name with a colon behind it. -/
theorem parenthesised_of_namesFields {named : Bool} (h : namesFields cs = .ok (named, cs)) :
    parenthesised visit item cs =
      if named then enclosed ')' visit (namedEntry item) cs
      else enclosed ')' visit (orTooDeep item) cs := by
  rw [parenthesised, bind_ok h]
  cases named <;> rfl

end Reader

/-! ## Values -/

theorem IsValue.starts {n : Nat} (h : IsValue n text) : Starts text := by
  have hhead : ∀ {head : List Char}, IsHead head → ∀ rest, Starts (head ++ '(' :: rest) := by
    rintro head hhead rest
    cases hhead with
    | nil => exact starts_cons (by decide) _
    | name h _ _ => exact (h.starts.append _).append _
  cases h with
  | literal h => exact h.starts
  | name h _ => exact h.starts
  | optional _ _ _ _ => exact starts_cons (by decide) _
  | list _ _ _ => exact starts_cons (by decide) _
  | map _ _ _ _ => exact starts_cons (by decide) _
  | tuple h _ _ _ => exact hhead h _
  | record h _ _ _ _ _ => exact hhead h _

theorem spells_some : Spells "Some".toList "Some".toList :=
  .plain (IsPlain.isName (by decide))

/-- No value is taken for a name with a colon behind it. -/
theorem IsValue.namesFields_append {n : Nat} (h : IsValue n text) (hends : Ends rest)
    (hrest : blank rest = .ok ((), after)) (hcolon : after.head? ≠ some ':')
    (hcs : blank cs = .ok ((), text ++ rest)) : namesFields cs = .ok (false, cs) := by
  have hbracket : ∀ {c more}, text ++ rest = c :: more → beginsName c = false →
      namesFields cs = .ok (false, cs) := by
    intro c more htext hc
    refine namesFields_of_error hcs (identifier_of_head fun d hd => ?_)
    rw [htext] at hd
    exact Option.some.inj hd ▸ hc
  have hname : ∀ {name ρ behind}, identifier (text ++ rest) = .ok (name, ρ) →
      blank ρ = .ok ((), behind) → behind.head? ≠ some ':' → namesFields cs = .ok (false, cs) := by
    intro name ρ behind hname hblank hhead
    rw [namesFields_of_ok hcs hname hblank, decide_eq_false hhead]
  have hparen : ∀ {word gap more : List Char} {name : List Char}, Spells name word → IsGap gap →
      text ++ rest = word ++ (gap ++ '(' :: more) → namesFields cs = .ok (false, cs) := by
    intro word gap more name hword hgap htext
    refine hname (htext ▸ hword.identifier_append (hgap.endsName_append (endsName_paren _)))
      ((hgap.blank_append _).trans (Seen.blank (by decide) _)) ?_
    exact fun hhead => absurd (Option.some.inj hhead) (by decide)
  have hhead : ∀ {head more : List Char}, IsHead head → text ++ rest = head ++ '(' :: more →
      namesFields cs = .ok (false, cs) := by
    intro head more hhead htext
    cases hhead with
    | nil => exact hbracket htext (by decide)
    | name hword _ hgap => exact hparen hword hgap (htext.trans (List.append_assoc _ _ _))
  cases h with
  | literal h => exact namesFields_of_error hcs (h.identifier_append rest)
  | name h _ => exact hname (h.identifier_append (endsName_of_ends hends)) hrest hcolon
  | optional hgap _ _ _ =>
    exact hparen spells_some hgap (by rw [List.append_assoc, List.append_assoc]; rfl)
  | list _ _ _ => exact hbracket rfl (by decide)
  | map _ _ _ _ => exact hbracket rfl (by decide)
  | tuple h _ _ _ => exact hhead h (List.append_assoc _ _ _)
  | record h _ _ _ _ _ => exact hhead h (List.append_assoc _ _ _)

/-- Behind an opening parenthesis a sequence of values is told from named fields. -/
theorem namesFields_values {n : Nat} {values : List (List Char)} (hbody : Sequence values body)
    (hvalues : ∀ v ∈ values, IsValue n v) (rest : List Char) :
    namesFields (body ++ ')' :: rest) = .ok (false, body ++ ')' :: rest) := by
  have hclose : Seen ')' := by decide
  cases values with
  | nil =>
    have hparen : identifier (')' :: rest) = .error .malformed :=
      identifier_of_head (by rintro c ⟨⟩; decide)
    obtain ⟨hgap⟩ := hbody
    exact namesFields_of_error ((hgap.blank_append _).trans (hclose.blank rest)) hparen
  | cons v values =>
    have hv := hvalues v List.mem_cons_self
    obtain ⟨before, behind, mark, more, hbefore, hbehind, hmark, htext⟩ :=
      hbody.exists_first ')' rest
    have hender : mark ∈ enders ∧ mark ≠ ':' := by
      rcases hmark with rfl | rfl <;> decide
    have hblank : blank (behind ++ mark :: more) = .ok ((), mark :: more) :=
      (hbehind.blank_append _).trans ((seen_of_mem_enders mark hender.1).blank more)
    refine hv.namesFields_append ((follows_cons hender.1 more).append hbehind).ends hblank ?_ ?_
    · exact fun hhead => hender.2 (Option.some.inj hhead)
    · rw [htext, hbefore.blank_append, (hv.starts.append _).blank]

/-- Behind an opening parenthesis named fields are told by the first. -/
theorem namesFields_entries {entries : List Entry} (hsome : entries ≠ [])
    (hbody : Sequence (entries.map Entry.text) body)
    (hkeys : ∀ e ∈ entries, ∃ name, Spells name e.key) (rest : List Char) :
    namesFields (body ++ ')' :: rest) = .ok (true, body ++ ')' :: rest) := by
  obtain ⟨e, entries, rfl⟩ := List.exists_cons_of_ne_nil hsome
  obtain ⟨name, hname⟩ := hkeys e List.mem_cons_self
  rw [List.map_cons] at hbody
  obtain ⟨before, behind, mark, more, hbefore, -, -, htext⟩ := hbody.exists_first ')' rest
  let value := e.behind ++ (e.value ++ (behind ++ mark :: more))
  have hentry : e.text ++ (behind ++ mark :: more) = e.key ++ (e.before ++ ':' :: value) := by
    simp [Entry.text, value]
  have hkey : identifier (e.key ++ (e.before ++ ':' :: value)) =
      .ok (name, e.before ++ ':' :: value) :=
    hname.identifier_append (e.isGap_before.endsName_append (endsName_colon _))
  have hblank : blank (body ++ ')' :: rest) = .ok ((), e.key ++ (e.before ++ ':' :: value)) := by
    rw [htext, hbefore.blank_append, hentry, (hname.starts.append _).blank]
  have hcolon : blank (e.before ++ ':' :: value) = .ok ((), ':' :: value) :=
    (e.isGap_before.blank_append _).trans (Seen.blank (by decide) _)
  exact namesFields_of_ok hblank hkey hcolon

/-! ## Passing over -/

section Steps

variable {β : Type} {items : List β} {inner n depth : Nat}

/-- There is depth to go inside brackets. -/
theorem isSome_visitAt (hn : inner + steps items ≤ depth) : (visitAt depth).isSome = true := by
  have hsteps : 1 ≤ steps items := by
    cases items
    · exact Nat.le_refl 1
    · exact Nat.le_succ 1
  obtain ⟨below, rfl⟩ : ∃ below, depth = below + 1 := ⟨depth - 1, by omega⟩
  rfl

/-- For items that there are, there is depth two steps further inside. -/
theorem exists_itemAt {b : β} (hb : b ∈ items) (hn : inner + steps items ≤ depth) :
    ∃ below, inner ≤ below ∧ itemAt depth = some (value {} below) := by
  have hsteps : steps items = 2 := by
    cases items with
    | nil => cases hb
    | cons _ _ => rfl
  obtain ⟨below, rfl⟩ : ∃ below, depth = below + 2 := ⟨depth - 2, by omega⟩
  exact ⟨below, by omega, rfl⟩

end Steps

/-- A single value in parentheses, with a comma behind it or without, is passed over as the
content of an optional value. -/
theorem optional_passesOver {v gap : List Char} {depth : Nat} (hv : Starts v)
    (hvalue : PassesOver (value {} depth) v) (hbody : Sequence [v] body) (hgap : IsGap gap)
    (rest : List Char) :
    Reader.optional {} (visitAt (depth + 1)) (gap ++ '(' :: (body ++ ')' :: rest)) =
      .ok ((), rest) := by
  rw [passesOver_iff] at hvalue
  have hparen : Seen '(' ∧ Seen ')' := by decide
  have hend : blank (')' :: rest) = .ok ((), ')' :: rest) := hparen.2.blank rest
  have hopen : blank (gap ++ '(' :: (body ++ ')' :: rest)) =
      .ok ((), '(' :: (body ++ ')' :: rest)) := (hgap.blank_append _).trans (hparen.1.blank _)
  -- what is left to do behind the value is to take the comma, if there is one
  have hcontent : ∀ {before follow : List Char}, IsGap before → Follows follow →
      body ++ ')' :: rest = before ++ (v ++ follow) →
      (∀ cs, blank cs = blank follow → ∃ found, comma cs = .ok (found, ')' :: rest)) →
      Reader.optional {} (visitAt (depth + 1)) (gap ++ '(' :: (body ++ ')' :: rest)) =
        .ok ((), rest) := by
    intro before follow hbefore hfollow htext hcomma
    obtain ⟨cs, hread, hcs⟩ := hvalue follow hfollow
    obtain ⟨found, hfound⟩ := hcomma cs hcs
    have hblank : blank (body ++ ')' :: rest) = .ok ((), v ++ follow) := by
      rw [htext, hbefore.blank_append, (hv.append follow).blank]
    have hvisit : orTooDeep ((visitAt (depth + 1)).map fun r => r true) (v ++ follow) =
        .ok ((), cs) := by
      change valueIn {} depth true (v ++ follow) = _
      rw [valueIn_true, hread]
    rw [Reader.optional, bind_ok hopen, bind_ok (accept_cons '(' _), if_pos rfl, bind_ok hblank,
      bind_ok hvisit, bind_ok hfound, expect_cons]
  cases hbody with
  | last hbefore hbehind =>
    refine hcontent hbefore ((follows_cons (c := ')') (by decide) rest).append hbehind)
      (by simp) fun cs hcs => ⟨false, ?_⟩
    rw [hbehind.blank_append, hend] at hcs
    exact comma_of_blank_ne hcs (by decide)
  | @cons before _ behind _ last hbefore hbehind hlast =>
    obtain ⟨hlast⟩ := hlast
    have hcomma : Seen ',' := by decide
    refine hcontent hbefore
      ((follows_cons (c := ',') (by decide) (last ++ ')' :: rest)).append hbehind)
      (by simp) fun cs hcs => ⟨true, ?_⟩
    rw [hbehind.blank_append, hcomma.blank] at hcs
    exact comma_of_blank hcs ((hlast.blank_append _).trans hend)

/-- A bracket that is no parenthesis tells a value by itself. -/
theorem valueWith_bracket {mark : Char} (hmark : mark ∉ '(' :: wordLetters)
    (hname : beginsName mark = false) (cs : List Char) :
    valueWith d visit item (mark :: cs) = unnamedWith visit item (mark :: cs) := by
  rw [List.mem_cons, not_or] at hmark
  have hhead : ∀ c ∈ (mark :: cs).head?, c = mark := fun c hc => (Option.some.inj hc).symm
  refine valueWith_of_not_name (fun c hc => hhead c hc ▸ hmark.2) (after?_unit_of_head ?_)
    (identifier_of_head fun c hc => hhead c hc ▸ hname)
  exact fun hc => hmark.1 (hhead '(' hc).symm

/-- `Some` with an opening parenthesis behind it, and a gap between them, tells an optional
value. -/
theorem valueWith_some {gap : List Char} (hgap : IsGap gap) (cs : List Char) :
    valueWith d visit item ("Some".toList ++ (gap ++ '(' :: cs)) =
      Reader.optional d visit (gap ++ '(' :: cs) := by
  have hends : EndsName (gap ++ '(' :: cs) := hgap.endsName_append (endsName_paren _)
  have hother : ∀ w ∈ valueWords, "Some".toList ≠ w.toList := by decide
  have hvalues : valueWords.findSome? (keyword? · ("Some".toList ++ (gap ++ '(' :: cs))) = none :=
    List.findSome?_eq_none_iff.mpr fun w hw =>
      spells_some.keyword?_eq_none hends (List.mem_cons_of_mem _ hw) (hother w hw)
  have hkeyword : keyword? "Some" ("Some".toList ++ (gap ++ '(' :: cs)) = some (gap ++ '(' :: cs) :=
    keyword?_eq_some_iff.mpr ⟨rfl, hends.continuesName_eq_false⟩
  rw [valueWith.eq_def, hvalues, hkeyword]

/-! ## Each kind of values -/

section Kinds

variable {inner depth : Nat} {v gap head : List Char} {values : List (List Char)}
  {entries : List Entry}

theorem literal_passesOver (h : IsLiteral text) (depth : Nat) :
    PassesOver (value {} depth) text := by
  rw [passesOver_iff, value_eq]
  exact fun rest hrest => ⟨rest, h.valueWith_append hrest.ends, rfl⟩

theorem name_passesOver (h : Spells name text) (hsome : text ≠ "Some".toList) (depth : Nat) :
    PassesOver (value {} depth) text := by
  rw [passesOver_iff, value_eq]
  exact fun rest hrest => valueWith_name_append h hsome hrest

theorem some_passesOver (hgap : IsGap gap) (hbody : Sequence [v] body) (hv : Starts v)
    (hvalue : ∀ depth, inner ≤ depth → PassesOver (value {} depth) v) (hn : inner + 1 ≤ depth) :
    PassesOver (value {} depth) ("Some".toList ++ (gap ++ '(' :: (body ++ [')']))) := by
  obtain ⟨depth, rfl⟩ : ∃ below, depth = below + 1 := ⟨depth - 1, by omega⟩
  rw [passesOver_iff, value_eq]
  intro rest _
  have htext : "Some".toList ++ (gap ++ '(' :: (body ++ [')'])) ++ rest =
      "Some".toList ++ (gap ++ '(' :: (body ++ ')' :: rest)) := by simp
  refine ⟨rest, ?_, rfl⟩
  rw [htext, valueWith_some hgap]
  exact optional_passesOver hv (hvalue depth (by omega)) hbody hgap rest

/-- Values that are passed over wherever there is depth for them are passed over as items. -/
theorem items_passesOver (hvalues : ∀ v ∈ values, IsValue inner v)
    (hpass : ∀ v ∈ values, ∀ depth, inner ≤ depth → PassesOver (value {} depth) v)
    (hn : inner + steps values ≤ depth) :
    ∀ v ∈ values, Starts v ∧ PassesOver (orTooDeep (itemAt depth)) v := by
  intro v hv
  obtain ⟨below, hbelow, hitem⟩ := exists_itemAt hv hn
  rw [hitem]
  exact ⟨(hvalues v hv).starts, hpass v hv below hbelow⟩

theorem list_passesOver (hbody : Sequence values body) (hvalues : ∀ v ∈ values, IsValue inner v)
    (hpass : ∀ v ∈ values, ∀ depth, inner ≤ depth → PassesOver (value {} depth) v)
    (hn : inner + steps values ≤ depth) : PassesOver (value {} depth) ('[' :: (body ++ [']'])) := by
  rw [passesOver_iff, value_eq]
  intro rest _
  refine ⟨rest, ?_, rfl⟩
  rw [List.cons_append, List.append_assoc, List.singleton_append,
    valueWith_bracket (by decide) (by decide)]
  exact enclosed_sequence (by decide) (by decide) (isSome_visitAt hn) hbody
    (items_passesOver hvalues hpass hn) rest

theorem map_passesOver (hbody : Sequence (entries.map Entry.text) body)
    (hkeys : ∀ e ∈ entries, IsValue inner e.key) (hvalues : ∀ e ∈ entries, IsValue inner e.value)
    (hpassKeys : ∀ e ∈ entries, ∀ depth, inner ≤ depth → PassesOver (value {} depth) e.key)
    (hpass : ∀ e ∈ entries, ∀ depth, inner ≤ depth → PassesOver (value {} depth) e.value)
    (hn : inner + steps entries ≤ depth) :
    PassesOver (value {} depth) ('\x7b' :: (body ++ ['\x7d'])) := by
  rw [passesOver_iff, value_eq]
  intro rest _
  have hitems : ∀ v ∈ entries.map Entry.text, Starts v ∧
      PassesOver (entry (orTooDeep (itemAt depth)) (orTooDeep (itemAt depth))) v := by
    intro v hv
    obtain ⟨e, he, rfl⟩ := List.mem_map.mp hv
    obtain ⟨below, hbelow, hitem⟩ := exists_itemAt he hn
    rw [hitem]
    exact ⟨(hkeys e he).starts.append _, entry_passesOver (hvalues e he).starts
      (hpassKeys e he below hbelow) (hpass e he below hbelow)⟩
  refine ⟨rest, ?_, rfl⟩
  rw [List.cons_append, List.append_assoc, List.singleton_append,
    valueWith_bracket (by decide) (by decide)]
  exact enclosed_sequence (by decide) (by decide) (isSome_visitAt hn) hbody hitems rest

/-- Values in parentheses are passed over; with nothing in them and no name in front they
are the unit. -/
theorem tuple_passesOver (hhead : IsHead head) (hbody : Sequence values body)
    (hvalues : ∀ v ∈ values, IsValue inner v)
    (hpass : ∀ v ∈ values, ∀ depth, inner ≤ depth → PassesOver (value {} depth) v)
    (hn : inner + steps values ≤ depth) :
    PassesOver (value {} depth) (head ++ '(' :: (body ++ [')'])) := by
  by_cases hunit : head = [] ∧ body = []
  · obtain ⟨rfl, rfl⟩ := hunit
    exact literal_passesOver .unit depth
  · rw [passesOver_iff, value_eq]
    intro rest _
    have hparen := hbody.head?_ne (fun v hv => (hvalues v hv).starts) ')' (by decide)
    refine ⟨rest, ?_, rfl⟩
    rw [List.append_assoc, List.cons_append, List.append_assoc, List.singleton_append,
      valueWith_head hhead hparen fun hbody hhead => hunit ⟨hhead, hbody⟩,
      parenthesised_of_namesFields (namesFields_values hbody hvalues rest), if_neg (by decide)]
    exact enclosed_sequence (by decide) (by decide) (isSome_visitAt hn) hbody
      (items_passesOver hvalues hpass hn) rest

theorem record_passesOver (hhead : IsHead head) (hsome : entries ≠ [])
    (hbody : Sequence (entries.map Entry.text) body)
    (hkeys : ∀ e ∈ entries, ∃ name, Spells name e.key)
    (hvalues : ∀ e ∈ entries, IsValue inner e.value)
    (hpass : ∀ e ∈ entries, ∀ depth, inner ≤ depth → PassesOver (value {} depth) e.value)
    (hn : inner + 2 ≤ depth) :
    PassesOver (value {} depth) (head ++ '(' :: (body ++ [')'])) := by
  obtain ⟨below, rfl⟩ : ∃ below, depth = below + 2 := ⟨depth - 2, by omega⟩
  rw [passesOver_iff, value_eq]
  intro rest _
  have hitems : ∀ v ∈ entries.map Entry.text, Starts v ∧
      PassesOver (namedEntry (itemAt (below + 2))) v := by
    intro v hv
    obtain ⟨e, he, rfl⟩ := List.mem_map.mp hv
    obtain ⟨name, hname⟩ := hkeys e he
    exact ⟨hname.starts.append _, entry_passesOver (hvalues e he).starts
      (identifier_passesOver hname) (hpass e he below (by omega))⟩
  have hstarts : ∀ v ∈ entries.map Entry.text, Starts v := fun v hv => (hitems v hv).1
  have hempty : body ≠ [] := by
    have hpos := List.length_pos_of_ne_nil hsome
    have hlength := hbody.length_le hstarts
    rw [List.length_map] at hlength
    exact List.ne_nil_of_length_pos (Nat.lt_of_lt_of_le hpos hlength)
  refine ⟨rest, ?_, rfl⟩
  rw [List.append_assoc, List.cons_append, List.append_assoc, List.singleton_append,
    valueWith_head hhead (hbody.head?_ne hstarts ')' (by decide)) fun hbody => absurd hbody hempty,
    parenthesised_of_namesFields (namesFields_entries hsome hbody hkeys rest), if_pos rfl]
  exact enclosed_sequence (by decide) (by decide) rfl hbody hitems rest

end Kinds

/-- **Values are passed over**: a value of the grammar that nests no deeper than there is
depth for is passed over whole, wherever a value may end behind it. -/
theorem IsValue.passesOver {n : Nat} (h : IsValue n text) :
    ∀ depth, n ≤ depth → PassesOver (value {} depth) text := by
  induction h with
  | literal h => exact fun depth _ => literal_passesOver h depth
  | name h hsome => exact fun depth _ => name_passesOver h hsome depth
  | optional hgap hbody hvalue hn ih =>
    exact fun depth hdepth => some_passesOver hgap hbody hvalue.starts ih (hn.trans hdepth)
  | list hbody hvalues hn ih =>
    exact fun depth hdepth => list_passesOver hbody hvalues ih (hn.trans hdepth)
  | map hbody hkeys hvalues hn ihkeys ih =>
    exact fun depth hdepth => map_passesOver hbody hkeys hvalues ihkeys ih (hn.trans hdepth)
  | tuple hhead hbody hvalues hn ih =>
    exact fun depth hdepth => tuple_passesOver hhead hbody hvalues ih (hn.trans hdepth)
  | record hhead hsome hbody hkeys hvalues hn ih =>
    exact fun depth hdepth =>
      record_passesOver hhead hsome hbody hkeys hvalues ih (hn.trans hdepth)

end PlantGrammar.Ron
