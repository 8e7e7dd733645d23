import PlantGrammar.Proofs.Outcome
import PlantGrammar.Proofs.Ron.Depth
import PlantGrammar.Ron.Schema

/-!
# Values where a certain kind is expected

A reader that expects a certain kind of value may be given any other. `Reader.Whole` says
that it then takes all of the value, or fails, or stops where no value ends, so that it
never goes on behind the value as if it were in front. Readers of strings have it because
they take what is passed over, and readers of numbers because they take a run of
characters of which none ends a value.
-/

namespace PlantGrammar.Ron

open Reader Text

variable {α β σ : Type} {cs rest text : List Char}

namespace Reader

/-! ## Other kinds of values -/

theorem takes_of_ok {r : Reader α} (h : ∀ rest, Follows rest → ∀ a cs,
    r (text ++ rest) = .ok (a, cs) → blank cs = blank rest ∨ Stuck cs) :
    Takes False r text fun _ => True := by
  intro rest hrest
  cases hr : r (text ++ rest) with
  | error fault => exact .inr ⟨not_false, nofun⟩
  | ok found =>
    obtain ⟨a, cs⟩ := found
    rcases h rest hrest a cs hr with hblank | hstuck
    · exact .inl ⟨a, cs, rfl, hblank, trivial⟩
    · refine .inr ⟨not_false, ?_⟩
      rintro _ _ ⟨⟩
      exact hstuck

/-- A value of any kind is taken whole, or not up to where a value ends. -/
def Whole (r : Reader α) : Prop :=
  ∀ n text, IsValue n text → Takes False r text fun _ => True

/-- With whatever depth, values are passed over whole or not at all. -/
theorem whole_value (depth : Nat) : Whole (value {} depth) := by
  intro n text h
  refine takes_of_ok fun rest hrest a cs hread => .inl ?_
  have hpasses := h.passesOver (max depth n) (Nat.le_max_right depth n)
  obtain ⟨cs', hread', hblank⟩ := passesOver_iff.mp hpasses rest hrest
  rw [value_extends (Nat.le_max_left depth n) _ _ _ hread] at hread'
  cases hread'
  exact hblank

/-- A reader of literals, which takes what is passed over. -/
theorem whole_of_passed {r : Reader α} (h : ∀ cs a rest, r cs = .ok (a, rest) →
    ∀ visit item, valueWith {} visit item cs = .ok ((), rest)) : Whole r := by
  intro n text hvalue
  refine takes_of_ok fun rest hrest a cs hread => .inl ?_
  obtain ⟨cs', hread', hblank⟩ := passesOver_iff.mp (hvalue.passesOver n le_rfl) rest hrest
  rw [value_eq, h _ _ _ hread] at hread'
  cases hread'
  exact hblank

theorem Whole.bind {r : Reader α} {f : α → Reader β} (h : Whole r)
    (hf : ∀ a cs b rest, f a cs = .ok (b, rest) → rest = cs) : Whole (r >>= f) := by
  intro n text hvalue
  refine takes_of_ok fun rest hrest b cs hread => ?_
  obtain ⟨a, mid, hr, hmore⟩ := bind_eq_ok.mp hread
  obtain rfl := hf _ _ _ _ hmore
  rcases h n text hvalue rest hrest with ⟨a', cs', hr', hblank, -⟩ | ⟨-, hstuck⟩
  · rw [hr] at hr'
    cases hr'
    exact .inl hblank
  · exact .inr (hstuck a cs hr)

/-! ## Strings and characters -/

/-- A raw string is not taken for a name. -/
theorem beginsQuoted_of_readRaw {s : List Char} (h : readRaw cs = .ok (s, rest)) :
    beginsQuoted ('r' :: cs) = true := by
  -- a mark stands behind the hashes, of which the first two tell
  rw [readRaw, List.span_eq_takeWhile_dropWhile] at h
  cases cs with
  | nil => cases h
  | cons c cs =>
    by_cases hc : c = '#'
    · subst hc
      cases cs with
      | nil => cases h
      | cons d cs =>
        by_cases hd : d = '#'
        · rw [hd]
          rfl
        · rw [List.dropWhile_cons_of_pos (by decide),
            List.dropWhile_cons_of_neg (by simpa using hd)] at h
          split at h
          · next heq =>
            cases (Prod.mk.inj heq).2
            rfl
          · cases h
    · rw [List.dropWhile_cons_of_neg (by simpa using hc)] at h
      split at h
      · next heq =>
        cases (Prod.mk.inj heq).2
        rfl
      · cases h

theorem whole_string : Whole Reader.string := by
  refine whole_of_passed fun cs s rest hread visit item => ?_
  have hvalue : ∀ {c more}, cs = c :: more → c ∉ wordLetters → c ≠ '(' →
      identifier cs = .error .malformed →
      unnamedWith visit item cs = (Reader.string cs).map (fun r => ((), r.2)) →
      valueWith {} visit item cs = .ok ((), rest) := by
    rintro c more rfl hword hparen hname hunnamed
    rw [valueWith_of_not_name (by rintro d ⟨⟩; exact hword)
      (after?_unit_of_head (by simpa using hparen)) hname, hunnamed, hread]
    rfl
  rw [Reader.string.eq_def] at hread
  split at hread
  · exact hvalue rfl (by decide) (by decide)
      (identifier_of_head (by rintro d ⟨⟩; decide)) rfl
  · next more =>
    exact hvalue rfl (by decide) (by decide)
      (identifier_of_beginsQuoted (beginsQuoted_of_readRaw hread)) rfl
  · cases hread

theorem whole_char : Whole Reader.char := by
  refine whole_of_passed fun cs c rest hread visit item => ?_
  obtain ⟨more, rfl⟩ : ∃ more, cs = '\'' :: more := by
    rw [Reader.char.eq_def] at hread
    split at hread
    · exact ⟨_, rfl⟩
    · exact ⟨_, rfl⟩
    · cases hread
  rw [valueWith_of_not_name (by rintro d ⟨⟩; decide) rfl
    (identifier_of_head (by rintro d ⟨⟩; decide))]
  exact congrArg (Except.map fun r => ((), r.2)) hread

end Reader

/-! ## Runs of characters -/

/-- The characters of numbers and of the names of their types. -/
def isNumberChar (c : Char) : Bool := c.isAlphanum || ['_', '.', '+', '-'].contains c

theorem isAlphanum_of_hexDigit? {c : Char} (h : (hexDigit? c).isSome = true) :
    c.isAlphanum = true := by
  change ((decide (c.val ≥ 'A'.val ∧ c.val ≤ 'Z'.val) ||
    decide (c.val ≥ 'a'.val) && decide (c.val ≤ 'z'.val)) ||
    decide (c.val ≥ '0'.val) && decide (c.val ≤ '9'.val)) = true
  simp only [Bool.or_eq_true, Bool.and_eq_true, decide_eq_true_eq]
  rw [hexDigit?] at h
  split at h
  · next hdigit => exact .inr hdigit
  split at h
  · next hlower => exact .inl (.inr ⟨hlower.1, le_trans hlower.2 (by decide)⟩)
  split at h
  · next hupper => exact .inl (.inl ⟨hupper.1, le_trans hupper.2 (by decide)⟩)
  · cases h

theorem isNumberChar_of_isIntegerChar {c : Char} (h : isIntegerChar c = true) :
    isNumberChar c = true := by
  rcases Bool.or_eq_true .. ▸ h with hdigit | hgroup
  · simp [isNumberChar, isAlphanum_of_hexDigit? hdigit]
  · simp [isNumberChar, of_decide_eq_true hgroup]

theorem isNumberChar_of_isFloatChar {c : Char} (h : isFloatChar c = true) :
    isNumberChar c = true := by
  by_cases hdigit : c.isDigit = true
  · simp [isNumberChar, Char.isAlphanum, hdigit]
  · have hmarks : ['e', 'E', '.', '+', '-', '_'].all isNumberChar = true := by decide
    exact List.all_eq_true.mp hmarks c (by simpa [isFloatChar, hdigit, or_assoc] using h)

/-- Between the one text and the other stand only characters of numbers. -/
def RunsTo (cs rest : List Char) : Prop :=
  ∃ run, cs = run ++ rest ∧ ∀ c ∈ run, isNumberChar c = true

theorem RunsTo.refl (cs : List Char) : RunsTo cs cs := ⟨[], rfl, nofun⟩

theorem RunsTo.trans {mid : List Char} (h : RunsTo cs mid) (h' : RunsTo mid rest) :
    RunsTo cs rest := by
  obtain ⟨run, rfl, hrun⟩ := h
  obtain ⟨more, rfl, hmore⟩ := h'
  exact ⟨run ++ more, (List.append_assoc ..).symm, List.forall_mem_append.mpr ⟨hrun, hmore⟩⟩

theorem runsTo_cons {c : Char} (hc : isNumberChar c = true) (h : RunsTo cs rest) :
    RunsTo (c :: cs) rest :=
  .trans ⟨[c], rfl, List.forall_mem_singleton.mpr hc⟩ h

theorem runsTo_dropWhile {p : Char → Bool} (hp : ∀ c, p c = true → isNumberChar c = true)
    (cs : List Char) : RunsTo cs (cs.dropWhile p) :=
  ⟨cs.takeWhile p, List.takeWhile_append_dropWhile.symm,
    fun c hc => hp c (List.mem_takeWhile_imp hc)⟩

theorem runsTo_span {p : Char → Bool} (hp : ∀ c, p c = true → isNumberChar c = true)
    (cs : List Char) : RunsTo cs (cs.span p).2 := by
  rw [List.span_eq_takeWhile_dropWhile]
  exact runsTo_dropWhile hp cs

theorem runsTo_of_keyword? {word : String} (hword : word.toList.all isNumberChar = true)
    (h : keyword? word cs = some rest) : RunsTo cs rest :=
  ⟨word.toList, (keyword?_eq_some_iff.mp h).1, List.all_eq_true.mp hword⟩

/-! ## Numbers -/

theorem integerTypes_isNumberChar :
    ∀ t ∈ IntegerType.all, t.name.toList.all isNumberChar = true := by decide

theorem floatWords_isNumberChar : ∀ word ∈ floatWords, ∀ t ∈ "" :: floatTypes,
    (word ++ t).toList.all isNumberChar = true := by decide

theorem runsTo_splitSign (cs : List Char) : RunsTo cs (splitSign cs).2 := by
  rw [splitSign.eq_def]
  split
  · exact runsTo_cons (by decide) (.refl _)
  · exact runsTo_cons (by decide) (.refl _)
  · exact .refl _

theorem runsTo_digitRun (cs : List Char) : RunsTo cs (digitRun cs).2.2 := by
  have hdigits := runsTo_span @isNumberChar_of_isIntegerChar
  have hbase : ∀ {c} cs, isNumberChar c = true →
      RunsTo ('0' :: c :: cs) (cs.span isIntegerChar).2 :=
    fun cs hc => runsTo_cons (by decide) (runsTo_cons hc (hdigits cs))
  rw [digitRun.eq_def]
  split
  · exact hbase _ (by decide)
  · exact hbase _ (by decide)
  · exact hbase _ (by decide)
  · exact hdigits _

theorem runsTo_namedType? {found : IntegerType × List Char} (h : namedType? cs = some found) :
    RunsTo cs found.2 := by
  obtain ⟨t, ht, hfound⟩ := List.exists_of_findSome?_eq_some h
  obtain ⟨rest, hrest, rfl⟩ := Option.map_eq_some_iff.mp hfound
  exact (runsTo_dropWhile @isNumberChar_of_isIntegerChar cs).trans
    (runsTo_of_keyword? (integerTypes_isNumberChar t ht) hrest)

theorem runsTo_natural {t : IntegerType} {n : Nat} (h : natural t cs = .ok (n, rest)) :
    RunsTo cs rest := by
  refine (runsTo_splitSign cs).trans ?_
  rw [natural] at h
  dsimp only at h
  cases hnamed : namedType? (splitSign cs).2 with
  | some found =>
    rw [hnamed] at h
    dsimp only at h
    obtain ⟨m, -, hmore⟩ := bind_eq_ok_iff.mp h
    split at hmore
    · cases hmore
      exact runsTo_namedType? hnamed
    · cases hmore
  | none =>
    rw [hnamed] at h
    obtain ⟨m, -, hmore⟩ := bind_eq_ok_iff.mp h
    cases hmore
    exact runsTo_digitRun _

theorem runsTo_float {x : Numeric.Encoding .binary64} (h : Reader.float cs = .ok (x, rest)) :
    RunsTo cs rest := by
  cases hfloat : float? ["f64"] cs with
  | none =>
    rw [Reader.float, hfloat] at h
    cases h
  | some found =>
    rw [Reader.float, hfloat] at h
    cases h
    rw [float?] at hfloat
    dsimp only at hfloat
    split at hfloat
    · next word behind hfound =>
      obtain ⟨x, -, hx⟩ := Option.map_eq_some_iff.mp hfloat
      cases hx
      obtain ⟨w, hw, hfound⟩ := List.exists_of_findSome?_eq_some hfound
      obtain ⟨-, t, ht, hkeyword⟩ := floatWord?_eq_some hfound
      have htypes : "" :: ["f64"] ⊆ "" :: floatTypes := by decide
      exact runsTo_of_keyword? (floatWords_isNumberChar w hw t (htypes ht)) hkeyword
    · obtain ⟨x, -, hx⟩ := Option.map_eq_some_iff.mp hfloat
      cases hx
      refine (runsTo_span @isNumberChar_of_isFloatChar cs).trans ?_
      rw [List.findSome?_singleton]
      cases hkeyword : keyword? "f64" (cs.span isFloatChar).2 with
      | none => exact .refl _
      | some behind => exact runsTo_of_keyword? (by decide) hkeyword

/-! ## Runs in front of values -/

/-- No number ends with a character that may stand behind a value. -/
theorem not_mem_stops_of_isNumberChar {c : Char} (h : isNumberChar c = true) : c ∉ stops := by
  have hstops : stops.any isNumberChar = false := by decide
  exact fun hc => List.any_eq_false.mp hstops c hc h

theorem not_mem_stops_of_continuesName {c : Char} (h : continuesName c = true) : c ∉ stops := by
  have hstops : stops.any continuesName = false := by decide +kernel
  exact fun hc => List.any_eq_false.mp hstops c hc h

theorem IsInteger.isNumberChar (h : IsInteger text) : ∀ c ∈ text, isNumberChar c = true := by
  have hsigns : ∀ {negative sign}, IsSign negative sign → ∀ c ∈ sign, Ron.isNumberChar c = true :=
    fun hsign c hc => isNumberChar_of_isFloatChar (hsign.isFloatChar c hc)
  have hdigits : ∀ {base digits}, IsDigits base digits → ∀ c ∈ digits, Ron.isNumberChar c = true :=
    fun hdigits c hc => isNumberChar_of_isIntegerChar (isIntegerChar_of_digits hdigits.digits c hc)
  have hbase : ∀ {base mark}, IsBase base mark → mark.all Ron.isNumberChar = true := by
    intro base mark hmark
    cases hmark <;> decide
  cases h with
  | based hsign hmark h _ =>
    exact List.forall_mem_append.mpr ⟨hsigns hsign,
      List.forall_mem_append.mpr ⟨List.all_eq_true.mp (hbase hmark), hdigits h⟩⟩
  | @typed _ _ mark _ _ t hsign hmark h ht _ =>
    have hbase' : mark.all Ron.isNumberChar = true := by cases hmark <;> decide
    refine List.forall_mem_append.mpr ⟨hsigns hsign, List.forall_mem_append.mpr
      ⟨List.forall_mem_append.mpr ⟨List.all_eq_true.mp hbase', hdigits h⟩, ?_⟩⟩
    exact List.all_eq_true.mp (integerTypes_isNumberChar t ht)

theorem IsFloat.isNumberChar (h : IsFloat text) : ∀ c ∈ text, isNumberChar c = true := by
  have hnames : ∀ t ∈ ["", "f32", "f64"], t.toList.all Ron.isNumberChar = true := by decide
  have hwords : ∀ w ∈ ["+inf", "-inf", "+NaN", "-NaN"], w.toList.all Ron.isNumberChar = true := by
    decide
  cases h with
  | @numeral _ _ _ _ t hsign hmantissa hexponent ht =>
    refine List.forall_mem_append.mpr ⟨fun c hc => isNumberChar_of_isFloatChar ?_,
      List.all_eq_true.mp (hnames t ht)⟩
    exact List.forall_mem_append.mpr ⟨hsign.isFloatChar, List.forall_mem_append.mpr
      ⟨hmantissa.isFloatChar, hexponent.isFloatChar⟩⟩ c hc
  | @word word t hword ht =>
    exact List.forall_mem_append.mpr
      ⟨List.all_eq_true.mp (hwords word hword), List.all_eq_true.mp (hnames t ht)⟩

/-- The marks in a value with which no value ends and no number goes on. -/
def marks : List Char := ['(', '[', '\x7b', '"', '\'', '#']

theorem not_mem_stops_of_mem_marks {c : Char} (h : c ∈ marks) :
    c ∉ stops ∧ isNumberChar c = false := by
  have hall : marks.all (fun c => !stops.contains c && !isNumberChar c) = true := by decide
  simpa using List.all_eq_true.mp hall c h

/-- A mark behind a run without stops and perhaps a gap. -/
inductive HasMark : List Char → Prop
  | intro {run gap more : List Char} {c : Char} (hrun : ∀ c ∈ run, c ∉ stops) (hgap : IsGap gap)
      (hc : c ∈ marks) : HasMark (run ++ (gap ++ c :: more))

theorem not_mem_stops_of_isName {name : List Char} (h : IsName name) : ∀ c ∈ name, c ∉ stops :=
  fun c hc => not_mem_stops_of_continuesName (h.2 c hc)

namespace HasMark

theorem cons {c : Char} (hc : c ∈ marks) (more : List Char) : HasMark (c :: more) :=
  (.intro nofun .nil hc : HasMark ([] ++ ([] ++ c :: more)))

/-- A letter in front of what has a mark changes nothing. -/
theorem letter {c : Char} (hc : isNumberChar c = true) (h : HasMark text) :
    HasMark (c :: text) := by
  obtain ⟨hrun, hgap, hmark⟩ := h
  rw [← List.cons_append]
  exact .intro (List.forall_mem_cons.mpr ⟨not_mem_stops_of_isNumberChar hc, hrun⟩) hgap hmark

/-- Behind a name and a gap there is a parenthesis, or the mark of a raw name comes first. -/
theorem spelled {name word gap : List Char} (h : Spells name word) (hgap : IsGap gap)
    (more : List Char) : HasMark (word ++ (gap ++ '(' :: more)) := by
  cases h with
  | plain h => exact .intro (not_mem_stops_of_isName h) hgap (by decide)
  | raw _ _ => exact letter (by decide) (cons (by decide) _)

theorem headed {head : List Char} (h : IsHead head) (more : List Char) :
    HasMark (head ++ '(' :: more) := by
  cases h with
  | nil => exact cons (by decide) more
  | name h _ hgap =>
    rw [List.append_assoc]
    exact spelled h hgap more

end HasMark

/-- A literal is a number, or it has a mark behind a letter or two. -/
theorem IsLiteral.isNumberChar_or_hasMark (h : IsLiteral text) :
    (∀ c ∈ text, isNumberChar c = true) ∨ HasMark text := by
  have hraw : ∀ {text}, IsRaw text → HasMark text := by
    intro text h
    obtain ⟨more, rfl | rfl | rfl⟩ := h.cases_head
    all_goals exact .cons (by decide) _
  cases h with
  | integer h => exact .inl h.isNumberChar
  | float h => exact .inl h.isNumberChar
  | rawString h => exact .inr ((hraw h).letter (by decide))
  | rawByteString h => exact .inr (((hraw h).letter (by decide)).letter (by decide))
  | byteString _ => exact .inr (.letter (by decide) (.cons (by decide) _))
  | byte _ _ => exact .inr (.letter (by decide) (.cons (by decide) _))
  | escapedByte _ _ => exact .inr (.letter (by decide) (.cons (by decide) _))
  | _ => exact .inr (.cons (by decide) _)

/-- A value is a run without stops, or there is a mark behind such a run. -/
theorem IsValue.run_or_mark {n : Nat} (h : IsValue n text) :
    (∀ c ∈ text, c ∉ stops) ∨ HasMark text := by
  cases h with
  | literal h =>
    exact h.isNumberChar_or_hasMark.imp_left fun h c hc => not_mem_stops_of_isNumberChar (h c hc)
  | name h _ =>
    cases h with
    | plain h => exact .inl (not_mem_stops_of_isName h)
    | raw _ _ => exact .inr (.letter (by decide) (.cons (by decide) _))
  | optional hgap _ _ _ => exact .inr (.spelled spells_some hgap _)
  | list _ _ _ => exact .inr (.cons (by decide) _)
  | map _ _ _ _ => exact .inr (.cons (by decide) _)
  | tuple h _ _ _ => exact .inr (.headed h _)
  | record h _ _ _ _ _ => exact .inr (.headed h _)

/-- Where a run without stops is followed by no character of a number, a number takes all of
the run, or stops inside. -/
theorem RunsTo.eq_or_stuck {run tail : List Char} (hrun : ∀ c ∈ run, c ∉ stops)
    (htail : ∀ c ∈ tail.head?, isNumberChar c = false) (h : RunsTo (run ++ tail) rest) :
    rest = tail ∨ Stuck rest := by
  obtain ⟨taken, heq, htaken⟩ := h
  rcases List.append_eq_append_iff.mp heq with ⟨more, rfl, rfl⟩ | ⟨more, rfl, rfl⟩
  · cases more with
    | nil => exact .inl rfl
    | cons c more =>
      have hc := htaken c (List.mem_append_right _ List.mem_cons_self)
      rw [htail c rfl] at hc
      cases hc
  · cases more with
    | nil => exact .inl rfl
    | cons c more =>
      exact .inr (starts_cons (hrun c (List.mem_append_right _ List.mem_cons_self)) _).stuck

namespace Reader

/-- A reader that takes a run of such characters takes all of a value, or stops where no
value ends. -/
theorem whole_of_runsTo {r : Reader α} (h : ∀ cs a rest, r cs = .ok (a, rest) → RunsTo cs rest) :
    Whole r := by
  have hends : ∀ {rest : List Char}, Ends rest → ∀ c ∈ rest.head?, isNumberChar c = false :=
    fun hends => hends.head?_eq_false (by decide)
  intro n text hvalue
  refine takes_of_ok fun rest hrest a cs hread => ?_
  have hruns := h _ _ _ hread
  rcases hvalue.run_or_mark with htext | @⟨run, gap, more, c, hrun, hgap, hc⟩
  · rcases hruns.eq_or_stuck htext (hends hrest.ends) with rfl | hstuck
    · exact .inl rfl
    · exact .inr hstuck
  · obtain ⟨hstop, hmark⟩ := not_mem_stops_of_mem_marks hc
    rw [List.append_assoc, List.append_assoc] at hruns
    have htail : ∀ d ∈ (gap ++ (c :: more ++ rest)).head?, isNumberChar d = false := by
      rcases hgap.eq_nil_or_ends (c :: more ++ rest) with rfl | hgap
      · rintro d ⟨⟩
        exact hmark
      · exact hends hgap
    rcases hruns.eq_or_stuck hrun htail with rfl | hstuck
    · exact .inr ((starts_cons hstop _).stuck.append hgap)
    · exact .inr hstuck

end Reader

/-! ## Codecs -/

/-- What begins with the bracket of a list is one. -/
theorem IsValue.list_of_head {n : Nat} (h : IsValue n text) (hhead : text.head? = some '[') :
    ∃ inner values body, text = '[' :: (body ++ [']']) ∧ Sequence values body ∧
      ∀ v ∈ values, IsValue inner v := by
  have hbracket : beginsName '[' = false := by decide
  have hnamed : ∀ {name word more : List Char}, Spells name word →
      (word ++ more).head? = some '[' → False := fun h hhead => h.head_ne hbracket _ hhead
  have hrecord : ∀ {head more : List Char}, IsHead head →
      (head ++ '(' :: more).head? = some '[' → False := by
    intro head more h hhead
    cases h with
    | nil => cases hhead
    | name h _ _ =>
      rw [List.append_assoc] at hhead
      exact hnamed h hhead
  cases h with
  | literal h =>
    have hmark := h.head_not_mem (by decide : ['['].any beginsLiteral = false) _ hhead
    exact absurd List.mem_cons_self hmark
  | name h _ => exact absurd ((List.append_nil text).symm ▸ hhead) (h.head_ne hbracket [])
  | optional _ _ _ _ => cases hhead
  | list hbody hvalues _ => exact ⟨_, _, _, rfl, hbody, hvalues⟩
  | map _ _ _ _ => cases hhead
  | tuple h _ _ _ => exact (hrecord h hhead).elim
  | record h _ _ _ _ _ => exact (hrecord h hhead).elim

namespace Reader

theorem whole_inside {r : Nat → Reader α} (h : ∀ depth, Whole (r depth)) (depth : Nat) :
    Whole (inside r depth) := by
  cases depth with
  | zero => exact fun n text _ => takes_of_ok nofun
  | succ depth => exact h depth

/-- Behind items that are taken whole the closing mark is left. -/
theorem items_eq_ok {close : Char} {item : σ → Reader σ} {vs : List (List Char)}
    {body cs : List Char} {s s' : σ} (hclose : close ∈ enders) (hcomma : close ≠ ',')
    (hitem : ∀ s, ∀ v ∈ vs, Takes False (item s) v fun _ => True) (hbody : Sequence vs body)
    (hvs : ∀ v ∈ vs, Starts v)
    (h : items close item s (body ++ close :: rest) = .ok (s', cs)) : cs = close :: rest := by
  rcases items_each hclose hcomma hitem hbody hvs s rest with ⟨s'', hitems⟩ | ⟨-, fault, hfault⟩
  · rw [h] at hitems
    cases hitems
    rfl
  · rw [h] at hfault
    cases hfault

end Reader

namespace Codec

/-- Whatever value is read as one of the codec is taken whole, or not up to its end. -/
def Whole (c : Codec α) : Prop := ∀ depth, Reader.Whole (c.read {} depth)

theorem whole_uint32 : uint32.Whole := fun _ =>
  (whole_of_runsTo fun _ _ _ => runsTo_natural).bind (by rintro n cs b rest ⟨⟩; rfl)

theorem whole_uint64 : uint64.Whole := fun _ =>
  (whole_of_runsTo fun _ _ _ => runsTo_natural).bind (by rintro n cs b rest ⟨⟩; rfl)

theorem whole_float : float.Whole := fun _ => whole_of_runsTo fun _ _ _ => runsTo_float

theorem whole_char : char.Whole := fun _ => Reader.whole_char

theorem whole_word : word.Whole := fun _ => whole_string

theorem whole_text : Codec.text.Whole := fun _ => whole_string.bind (by rintro s cs b rest ⟨⟩; rfl)

theorem whole_color : color.Whole := by
  intro depth
  refine Reader.Whole.bind whole_string fun s cs b rest h => ?_
  cases hparse : Color.parse s with
  | ok c =>
    rw [hparse] at h
    cases h
    rfl
  | error fault =>
    rw [hparse] at h
    cases h

/-- A field is taken whole if its value is. -/
theorem Whole.field {c : Codec β} (h : c.Whole) (name : String) (get : α → β) (set : β → α → α) :
    ∀ depth a, Reader.Whole ((Field.of name get set c).read {} depth a) :=
  fun depth _ => (h depth).bind (by rintro x cs b rest ⟨⟩; rfl)

/-- Lists are taken whole if their items are. -/
theorem Whole.list {c : Codec α} (h : c.Whole) : (Codec.list c).Whole := by
  intro depth n text hvalue
  refine takes_of_ok fun rest hrest xs cs hread => .inl ?_
  obtain ⟨⟨⟩, mid, hopen, hread⟩ := bind_eq_ok.mp hread
  obtain ⟨found, mid', hitems, hread⟩ := bind_eq_ok.mp hread
  obtain ⟨⟨⟩, after, hblank, hread⟩ := bind_eq_ok.mp hread
  obtain ⟨⟨⟩, behind, hclose, hread⟩ := bind_eq_ok.mp hread
  cases hread
  have hhead : text.head? = some '[' := by
    obtain ⟨c, more, rfl, -⟩ := hvalue.starts
    exact congrArg List.head? (expect_eq_ok.mp hopen)
  obtain ⟨inner, values, body, rfl, hbody, hvalues⟩ := hvalue.list_of_head hhead
  obtain rfl : body ++ ']' :: rest = mid := by
    simpa using expect_eq_ok.mp hopen
  cases depth with
  | zero => cases hitems
  | succ depth =>
    have hitem : ∀ found : List α, Reader.Whole (do
        return (← inside (c.read {}) depth) :: found) :=
      fun found => (whole_inside h depth).bind (by rintro x cs b rest ⟨⟩; rfl)
    obtain rfl := items_eq_ok (by decide) (by decide)
      (fun found v hv => hitem found _ v (hvalues v hv))
      hbody (fun v hv => (hvalues v hv).starts) hitems
    rw [Seen.blank (by decide) rest] at hblank
    cases hblank
    cases expect_eq_ok.mp hclose
    rfl

end Codec

end PlantGrammar.Ron
