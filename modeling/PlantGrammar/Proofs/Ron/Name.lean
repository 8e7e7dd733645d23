import Mathlib.Data.List.Infix
import PlantGrammar.Proofs.Ron.Reader
import PlantGrammar.Ron.Name

/-!
# Names are read back

A name made of letters is read whole, wherever a character follows that cannot
belong to a name or to what a name could be taken for. In front of a name there is
nothing to pass over.
-/

namespace PlantGrammar.Ron

open Text Reader

/-- A name that needs no raw mark. -/
def IsName (name : List Char) : Prop :=
  name.head?.any beginsName = true ∧ ∀ c ∈ name, continuesName c = true

/-- A name of a schema: letters without marks, and underscores. -/
def IsPlain (name : List Char) : Prop :=
  name.isEmpty = false ∧ name.all (fun c => c.isAlpha || c == '_') = true

instance (name : List Char) : Decidable (IsPlain name) :=
  inferInstanceAs (Decidable (_ ∧ _))

theorem startsName_of_isAlpha {c : Char} (h : c.isAlpha = true) : startsName c = true := by
  have hcode : 0x41 ≤ c.toNat ∧ c.toNat ≤ 0x5A ∨ 0x61 ≤ c.toNat ∧ c.toNat ≤ 0x7A := by
    change (decide (c.val ≥ 0x41 ∧ c.val ≤ 0x5A) ||
      decide (c.val ≥ 0x61) && decide (c.val ≤ 0x7A)) = true at h
    simp only [Bool.or_eq_true, Bool.and_eq_true, decide_eq_true_eq, ge_iff_le,
      UInt32.le_iff_toNat_le] at h
    exact h
  -- the table begins with the two ranges of these letters
  obtain ⟨rest, hrest⟩ :
      ∃ rest, nameStartRanges = (0x41, 0x5A) :: (0x61, 0x7A) :: rest := ⟨_, rfl⟩
  rw [startsName, hrest, inRanges, inRanges]
  simp
  omega

theorem IsPlain.isName {name : List Char} (h : IsPlain name) : IsName name := by
  have hletters : ∀ c ∈ name, c.isAlpha = true ∨ c = '_' := by
    simpa [List.all_eq_true] using h.2
  have hunderscore : continuesName '_' = true := by decide
  constructor
  · obtain ⟨c, cs, rfl⟩ := List.exists_cons_of_ne_nil (List.isEmpty_eq_false_iff.mp h.1)
    rcases hletters c List.mem_cons_self with hletter | rfl
    · simp [beginsName, startsName_of_isAlpha hletter]
    · simp [beginsName]
  · intro c hc
    rcases hletters c hc with hletter | rfl
    · rw [continuesName, startsName_of_isAlpha hletter, Bool.true_or]
    · exact hunderscore

/-- What may follow a name. -/
def EndsName (rest : List Char) : Prop :=
  ∀ c ∈ rest.head?, isRawName c = false ∧ c ≠ '"' ∧ c ≠ '\'' ∧ c ≠ '#'

theorem endsName_colon (rest : List Char) : EndsName (':' :: rest) := by
  rintro c ⟨⟩
  decide

theorem endsName_paren (rest : List Char) : EndsName ('(' :: rest) := by
  rintro c ⟨⟩
  decide

theorem endsName_of_ends {rest : List Char} (h : Ends rest) : EndsName rest := by
  have hmark : stops.any (fun c => c = '"' || c = '\'' || c = '#') = false := by decide
  intro c hc
  have hc' := h.head?_eq_false hmark c hc
  simp only [Bool.or_eq_false_iff, decide_eq_false_iff_not] at hc'
  exact ⟨h.head?_eq_false (by decide +kernel) c hc, hc'.1.1, hc'.1.2, hc'.2⟩

variable {name rest : List Char}

theorem EndsName.continuesName_eq_false (h : EndsName rest) :
    ∀ c ∈ rest.head?, continuesName c = false := by
  intro c hc
  have hraw := (h c hc).1
  simp only [isRawName, Bool.or_eq_false_iff] at hraw
  exact hraw.1.1.1

/-- What begins a string, a byte or a byte string has a mark behind its letters that
does not follow a name. -/
theorem not_endsName_of_beginsQuoted {cs : List Char} (h : beginsQuoted cs = true) :
    ¬ EndsName (cs.dropWhile continuesName) := by
  have hletters : continuesName 'b' = true ∧ continuesName 'r' = true := by decide
  have hmarks : continuesName '"' = false ∧ continuesName '\'' = false ∧
      continuesName '#' = false := by decide
  rw [beginsQuoted.eq_def] at h
  split at h <;> simp_all [EndsName]

/-- A name is read whole. -/
theorem identifier_append (hname : IsName name) (hrest : EndsName rest) :
    Reader.identifier (name ++ rest) = .ok (name, rest) := by
  obtain ⟨hfirst, hletters⟩ := hname
  have hdrop := Text.dropWhile_append hletters hrest.continuesName_eq_false
  have hspan := Text.span_append hletters hrest.continuesName_eq_false
  have hquoted : beginsQuoted (name ++ rest) = false := by
    rw [← Bool.not_eq_true]
    intro hbegins
    exact not_endsName_of_beginsQuoted hbegins (hdrop.symm ▸ hrest)
  have hraw : ¬ rest.head?.any isRawName = true := by
    rw [Option.any_eq_true]
    rintro ⟨c, hc, hrawName⟩
    rw [(hrest c hc).1] at hrawName
    cases hrawName
  cases name with
  | nil => cases hfirst
  | cons c cs =>
    rw [List.cons_append] at hdrop hspan hquoted ⊢
    have hbegins : beginsName c = true := hfirst
    have hnomark : ∀ raw, c = 'r' → cs ++ rest = '#' :: raw → False := by
      -- the hash of a raw mark would have to follow the name
      intro raw hc hhash
      have hmark : continuesName '#' = false := by decide
      rw [hhash, List.dropWhile_cons_of_pos (hletters c List.mem_cons_self),
        List.dropWhile_cons_of_neg (by simp [hmark])] at hdrop
      exact (hrest '#' (hdrop ▸ rfl)).2.2.2 rfl
    rw [Reader.identifier, if_neg (by simp [hbegins, hquoted]), hspan]
    · exact if_neg hraw
    · exact hnomark

/-! ## Words -/

theorem after?_eq_some_iff {word cs : List Char} :
    after? word cs = some rest ↔ cs = word ++ rest := by
  induction word generalizing cs with
  | nil => exact Option.some_inj
  | cons c word ih =>
    cases cs with
    | nil => simp [after?]
    | cons d cs =>
      rw [after?, List.cons_append, List.cons.injEq]
      split
      · next heq => rw [ih, heq, eq_self, true_and]
      · next hne => simp [Ne.symm hne]

/-- A text begins with a word if something follows it that does not go on as a name. -/
theorem keyword?_eq_some_iff {word : String} {cs : List Char} :
    keyword? word cs = some rest ↔
      cs = word.toList ++ rest ∧ ∀ c ∈ rest.head?, continuesName c = false := by
  rw [keyword?, Option.bind_eq_some_iff]
  simp only [after?_eq_some_iff]
  constructor
  · rintro ⟨behind, hcs, hbehind⟩
    split at hbehind
    · cases hbehind
    · next hends =>
      cases hbehind
      exact ⟨hcs, fun c hc => by simpa [Option.mem_def.mp hc] using hends⟩
  · rintro ⟨hcs, hends⟩
    refine ⟨rest, hcs, if_neg ?_⟩
    rw [Option.any_eq_true]
    rintro ⟨c, hc, hname⟩
    rw [hends c hc] at hname
    cases hname

/-- A word is taken where a value may end behind it. -/
theorem keyword?_append (word : String) (h : Ends rest) :
    keyword? word (word.toList ++ rest) = some rest :=
  keyword?_eq_some_iff.mpr ⟨rfl, (endsName_of_ends h).continuesName_eq_false⟩

/-- A text that begins with another character does not begin with a word. -/
theorem keyword?_of_head? {word : String} {cs : List Char} {c : Char}
    (hword : word.toList.head? = some c) (hcs : cs.head? ≠ some c) : keyword? word cs = none := by
  rw [Option.eq_none_iff_forall_ne_some]
  intro behind hkeyword
  obtain ⟨rfl, -⟩ := keyword?_eq_some_iff.mp hkeyword
  rw [List.head?_append, hword] at hcs
  exact hcs rfl

/-- What follows a value does not go on in a word. -/
theorem keyword?_of_ends {word : String} {c : Char} (hword : word.toList.head? = some c)
    (hc : c ∉ stops) (hrest : Ends rest) : keyword? word rest = none :=
  keyword?_of_head? hword fun hhead => hc (hrest c hhead)

/-- A word goes on like a name behind its first character, which may be a sign. -/
def IsWord (word : String) : Prop :=
  word.toList.isEmpty = false ∧ word.toList.tail.all continuesName = true

instance (word : String) : Decidable (IsWord word) := inferInstanceAs (Decidable (_ ∧ _))

/-- Only one word begins a text, as what follows it does not go on like a name. -/
theorem IsWord.unique {word other : String} {cs behind : List Char} (hword : IsWord word)
    (hother : IsWord other) (h : keyword? word cs = some rest)
    (h' : keyword? other cs = some behind) : word = other ∧ rest = behind := by
  obtain ⟨rfl, hrest⟩ := keyword?_eq_some_iff.mp h
  obtain ⟨htext, hbehind⟩ := keyword?_eq_some_iff.mp h'
  obtain ⟨c, letters, hc⟩ := List.exists_cons_of_ne_nil (List.isEmpty_eq_false_iff.mp hword.1)
  obtain ⟨d, others, hd⟩ := List.exists_cons_of_ne_nil (List.isEmpty_eq_false_iff.mp hother.1)
  have hletters := hword.2
  have hothers := hother.2
  rw [hc, List.tail_cons, List.all_eq_true] at hletters
  rw [hd, List.tail_cons, List.all_eq_true] at hothers
  rw [hc, hd, List.cons_append, List.cons_append, List.cons.injEq] at htext
  have hspan := Text.span_append hletters hrest
  rw [htext.2, Text.span_append hothers hbehind, Prod.mk.injEq] at hspan
  refine ⟨String.toList_inj.mp ?_, hspan.2.symm⟩
  rw [hc, hd, htext.1, hspan.1]

/-- A search that can only find one thing finds it. -/
theorem findSome?_eq_some_of_unique {β γ : Type} {f : β → Option γ} {b : β} {c : γ} {bs : List β}
    (hb : b ∈ bs) (hfound : f b = some c)
    (hunique : ∀ other ∈ bs, ∀ d, f other = some d → d = c) : bs.findSome? f = some c := by
  have hsome : (bs.findSome? f).isSome = true :=
    List.findSome?_isSome_iff.mpr ⟨b, hb, Option.isSome_of_eq_some hfound⟩
  obtain ⟨d, hd⟩ := Option.isSome_iff_exists.mp hsome
  obtain ⟨other, hother, hfound'⟩ := List.exists_of_findSome?_eq_some hd
  rw [hd, hunique other hother d hfound']

/-! ## Beginnings -/

/-- A blank of the notation does not begin a name. -/
theorem beginsName_of_isBlank {c : Char} (h : Reader.isBlank c = true) : beginsName c = false := by
  have hcode : ∀ {n : Nat}, c.toNat = n → c = Char.ofNat n :=
    fun heq => heq ▸ (Char.ofNat_toNat c).symm
  simp only [Reader.isBlank, Bool.or_eq_true, decide_eq_true_eq] at h
  rcases h with ((((((((((rfl | rfl) | rfl) | rfl) | hn) | hn) | hn) | hn) | hn) | hn) | hn)
  all_goals try rw [hcode hn]
  all_goals decide +kernel

/-- What begins a name also goes on with one. -/
theorem continuesName_of_beginsName {c : Char} (h : beginsName c = true) :
    continuesName c = true := by
  have hunderscore : continuesName '_' = true := by decide
  rcases Bool.or_eq_true .. ▸ h with hmark | hstarts
  · rw [of_decide_eq_true hmark]
    exact hunderscore
  · simp [continuesName, hstarts]

/-- In front of a name there is nothing to pass over. -/
theorem IsName.begins {close : Char} (hname : IsName name)
    (hclose : beginsName close = false) : Begins close name := by
  obtain ⟨hfirst, -⟩ := hname
  cases name with
  | nil => cases hfirst
  | cons c cs =>
    have hbegins : beginsName c = true := hfirst
    refine ⟨c, cs, rfl, ⟨?_, ?_⟩, ?_⟩
    · rw [← Bool.not_eq_true]
      intro hblank
      rw [beginsName_of_isBlank hblank] at hbegins
      cases hbegins
    · rintro rfl
      revert hbegins
      decide
    · rintro rfl
      rw [hclose] at hbegins
      cases hbegins

end PlantGrammar.Ron
