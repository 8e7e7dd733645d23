import PlantGrammar.Proofs.Ron.Float
import PlantGrammar.Proofs.Ron.Grammar
import PlantGrammar.Proofs.Ron.Number

/-!
# Numbers of any type are passed over

Whether a number is an integer or a float shows only behind its digits. Each of the
numbers of the grammar is passed over whole, by whichever of the two ways.
-/

namespace PlantGrammar.Ron

open Reader Text Numeric

variable {sign digits cs rest : List Char} {negative : Bool} {base : Nat} {t : IntegerType}

/-! ## Signs and digits -/

theorem isIntegerChar_of_isDigitOf {c : Char} (h : isDigitOf base c = true) :
    isIntegerChar c = true := by
  rw [isDigitOf, Option.any_eq_true] at h
  obtain ⟨d, hd, -⟩ := h
  simp [isIntegerChar, Option.mem_def.mp hd]

theorem isIntegerChar_of_digits (h : ∀ c ∈ digits, c ≠ '_' → isDigitOf base c = true) :
    ∀ c ∈ digits, isIntegerChar c = true := by
  intro c hc
  by_cases hgroup : c = '_'
  · simp [isIntegerChar, hgroup]
  · exact isIntegerChar_of_isDigitOf (h c hc hgroup)

/-- The decimal digits are the ones of the base ten. -/
theorem isDigit_of_isDigitOf {c : Char} (h : isDigitOf 10 c = true) : c.isDigit = true := by
  rw [isDigitOf, hexDigit?] at h
  rw [Char.isDigit, Bool.and_eq_true, decide_eq_true_eq, decide_eq_true_eq]
  split at h
  · next hdigit => exact hdigit
  · exfalso
    split at h
    · simp at h
    · split at h
      · simp at h
      · simp at h

theorem isFloatChar_of_digits (h : ∀ c ∈ digits, c ≠ '_' → isDigitOf 10 c = true) :
    ∀ c ∈ digits, isFloatChar c = true := by
  intro c hc
  by_cases hgroup : c = '_'
  · simp [isFloatChar, hgroup]
  · simp [isFloatChar, isDigit_of_isDigitOf (h c hc hgroup)]

theorem IsDigits.exists_cons (h : IsDigits base digits) :
    ∃ c more, digits = c :: more ∧ isDigitOf base c = true := by
  cases digits with
  | nil => cases h.first
  | cons c more => exact ⟨c, more, rfl, h.first⟩

/-- A sign is split off in front of what has none. -/
theorem IsSign.splitSign_append (h : IsSign negative sign)
    (hcs : ∀ c ∈ cs.head?, c ≠ '-' ∧ c ≠ '+') :
    splitSign (sign ++ cs) = (negative, cs) := by
  cases h with
  | absent =>
    rw [List.nil_append, splitSign.eq_def]
    split
    · exact absurd rfl (hcs '-' rfl).1
    · exact absurd rfl (hcs '+' rfl).2
    · rfl
  | plus => rfl
  | minus => rfl

/-! ## Integers -/

theorem le_foldl_appendDigit (hbase : 0 < base) (cs : List Char) :
    ∀ n, n ≤ cs.foldl (appendDigit base) n := by
  induction cs with
  | nil => exact fun n => Nat.le_refl n
  | cons c cs ih =>
    intro n
    refine Nat.le_trans ?_ (ih (appendDigit base n c))
    rw [appendDigit]
    split
    · exact Nat.le_refl n
    · exact Nat.le_add_right_of_le (Nat.le_mul_of_pos_right n hbase)

/-- A type that holds a number holds what is nearer to zero. -/
theorem holds_of_le (ht : t.low ≤ 0 ∧ 0 ≤ t.high) {m n : Nat} (hle : m ≤ n)
    (h : t.holds (withSign negative n) = true) : t.holds (withSign negative m) = true := by
  simp only [IntegerType.holds, Bool.and_eq_true, decide_eq_true_eq] at h ⊢
  cases negative
  · simp only [withSign, Bool.false_eq_true, if_false] at h ⊢
    omega
  · simp only [withSign, if_true] at h ⊢
    omega

/-- Digits lead to the number that they stand for, in a type that holds it. -/
theorem accumulate_digits (hbase : 0 < base) (ht : t.low ≤ 0 ∧ 0 ≤ t.high) :
    ∀ n, (∀ c ∈ digits, c ≠ '_' → isDigitOf base c = true) →
      t.holds (withSign negative (digits.foldl (appendDigit base) n)) = true →
      accumulate t negative base (withSign negative n) digits =
        .ok (withSign negative (digits.foldl (appendDigit base) n)) := by
  induction digits with
  | nil => exact fun _ _ _ => rfl
  | cons c digits ih =>
    intro n hdigits hrange
    obtain ⟨hc, hdigits⟩ := List.forall_mem_cons.mp hdigits
    rw [List.foldl_cons] at hrange ⊢
    rw [accumulate]
    split
    · next hgroup =>
      rw [appendDigit, if_pos hgroup] at hrange ⊢
      exact ih n hdigits hrange
    · next hgroup =>
      obtain ⟨d, hd, hless⟩ := Option.any_eq_true _ _ |>.mp (hc hgroup)
      have hnext : appendDigit base n c = n * base + d := by
        rw [appendDigit, if_neg hgroup, Option.mem_def.mp hd, Option.getD_some]
      have hreach := le_foldl_appendDigit hbase digits (n * base + d)
      rw [hnext] at hrange ⊢
      have hscaled : withSign negative n * base = withSign negative (n * base) := by
        cases negative <;> simp [withSign]
      have hvalue : (if negative then withSign negative n * base - d
          else withSign negative n * base + d) = withSign negative (n * base + d) := by
        cases negative
        · simp [withSign]
        · simp [withSign]
          omega
      have hon : t.holds (withSign negative n * base) = true := by
        rw [hscaled]
        exact holds_of_le ht (by omega) hrange
      rw [if_neg (by simp [hon]), Option.mem_def.mp hd]
      dsimp only
      rw [if_neg (by simpa using hless), hvalue, if_pos (holds_of_le ht hreach hrange),
        ih _ hdigits hrange]

theorem integerValue_digits (hbase : 0 < base) (ht : t.low ≤ 0 ∧ 0 ≤ t.high)
    (hdigits : IsDigits base digits)
    (hrange : t.holds (withSign negative (digitsValue base digits)) = true) :
    integerValue t negative base digits = .ok (withSign negative (digitsValue base digits)) := by
  obtain ⟨c, more, rfl, hc⟩ := hdigits.exists_cons
  have hgroup : c ≠ '_' := by
    rintro rfl
    revert hc
    simp [isDigitOf, hexDigit?]
  have hzero : withSign negative 0 = 0 := by cases negative <;> rfl
  have hvalue := accumulate_digits hbase ht 0 hdigits.digits hrange
  rw [hzero] at hvalue
  rw [integerValue, if_neg (by simpa using hgroup), hvalue]
  rfl

/-- No type is named where the run of digits ends otherwise. -/
theorem namedType?_eq_none (h : ∀ c ∈ (cs.dropWhile isIntegerChar).head?, c ≠ 'i' ∧ c ≠ 'u') :
    namedType? cs = none := by
  rw [namedType?, List.findSome?_eq_none_iff]
  intro t ht
  rw [Option.map_eq_none_iff]
  rcases integerTypes_head? t ht with hname | hname
  · exact keyword?_of_head? hname fun hhead => (h 'i' hhead).1 rfl
  · exact keyword?_of_head? hname fun hhead => (h 'u' hhead).2 rfl

/-- A type is named by its own name alone. -/
theorem namedType?_of_mem (ht : t ∈ IntegerType.all)
    (h : cs.dropWhile isIntegerChar = t.name.toList ++ rest) (hrest : Ends rest) :
    namedType? cs = some (t, rest) := by
  have hwords : ∀ u ∈ IntegerType.all, IsWord u.name := by decide
  have hdistinct : (IntegerType.all.map (·.name)).Nodup := by decide
  have hname : keyword? t.name (t.name.toList ++ rest) = some rest := keyword?_append t.name hrest
  rw [namedType?, h]
  refine findSome?_eq_some_of_unique ht (by rw [hname]; rfl) ?_
  rintro u hu found hfound
  obtain ⟨behind, hkeyword, rfl⟩ := Option.map_eq_some_iff.mp hfound
  obtain ⟨hsame, rfl⟩ := (hwords u hu).unique (hwords t ht) hkeyword hname
  rw [List.inj_on_of_nodup_map hdistinct hu ht hsame]

/-- Without the mark of another base the digits are decimal. -/
theorem digitRun_eq (h : ∀ c ∈ cs.tail.head?, c ∉ ['x', 'o', 'b']) :
    digitRun cs = (10, cs.span isIntegerChar) := by
  rw [digitRun.eq_def]
  split
  · exact absurd (by decide) (h 'x' rfl)
  · exact absurd (by decide) (h 'o' rfl)
  · exact absurd (by decide) (h 'b' rfl)
  · rfl

/-- Behind the first digit of a numeral there is no mark of a base. -/
theorem digitRun_append {run : List Char} (hne : run ≠ []) (hrun : ∀ c ∈ run, isFloatChar c = true)
    (hrest : ∀ c ∈ rest.head?, c ∉ ['x', 'o', 'b']) :
    digitRun (run ++ rest) = (10, (run ++ rest).span isIntegerChar) := by
  have hmarks : ∀ c, c ∈ ['x', 'o', 'b'] → isFloatChar c = false := by simp [isFloatChar]
  refine digitRun_eq fun c hc hmark => ?_
  cases run with
  | nil => exact hne rfl
  | cons d run =>
    rw [List.cons_append, List.tail_cons] at hc
    cases run with
    | nil => exact hrest c hc hmark
    | cons e run =>
      obtain rfl : e = c := Option.some.inj hc
      have hfloat := hrun e (by simp)
      rw [hmarks e hmark] at hfloat
      cases hfloat

theorem anyNumber_of_extent (hlooks : looksFloat cs = false)
    (h : integerExtent cs = (rest, .ok ())) : anyNumber cs = .ok ((), rest) := by
  rw [anyNumber, if_neg (by simp [hlooks]), h]

theorem not_looksFloat {body : List Char} (hsplit : splitSign cs = (negative, body))
    (h : (body.takeWhile isFloatChar).length ≤ (body.takeWhile isIntegerChar).length) :
    looksFloat cs = false := by
  rw [looksFloat, hsplit]
  exact decide_eq_false (Nat.not_lt.mpr h)

/-- Numbers of another base are passed over. -/
theorem anyNumber_based {mark : List Char} (hsign : IsSign negative sign) (hmark : IsBase base mark)
    (hdigits : IsDigits base digits)
    (hrange : (widest negative).holds (withSign negative (digitsValue base digits)) = true)
    (hrest : Ends rest) : anyNumber (sign ++ (mark ++ digits) ++ rest) = .ok ((), rest) := by
  have hrun := isIntegerChar_of_digits hdigits.digits
  have hstop := isIntegerChar_of_ends hrest
  let body := mark ++ (digits ++ rest)
  have hsplit : splitSign (sign ++ (mark ++ digits) ++ rest) = (negative, body) := by
    rw [List.append_assoc, List.append_assoc]
    refine hsign.splitSign_append ?_
    cases hmark <;> rintro c ⟨⟩ <;> decide
  have hdigitRun : digitRun body = (base, digits, rest) := by
    have hspan : (digits ++ rest).span isIntegerChar = (digits, rest) := Text.span_append hrun hstop
    cases hmark <;> exact congrArg (Prod.mk _) hspan
  have htype : namedType? body = none := by
    refine namedType?_eq_none ?_
    cases hmark with
    | hexadecimal => rintro c ⟨⟩; decide
    | octal => rintro c ⟨⟩; decide
    | binary =>
      -- the mark of the base two is a digit of the base sixteen
      have hrun' : ∀ c ∈ '0' :: 'b' :: digits, isIntegerChar c = true :=
        List.forall_mem_cons.mpr ⟨by decide, List.forall_mem_cons.mpr ⟨by decide, hrun⟩⟩
      have hdrop : body.dropWhile isIntegerChar = rest := Text.dropWhile_append hrun' hstop
      rw [hdrop]
      exact fun c hc => ⟨hrest.head?_ne (by decide) c hc,
        hrest.head?_ne (by decide) c hc⟩
  have hlooks : looksFloat (sign ++ (mark ++ digits) ++ rest) = false := by
    refine not_looksFloat hsplit ?_
    cases hmark <;> simp [body, isFloatChar, isIntegerChar, hexDigit?]
  have hvalue : integerValue (widest negative) negative base digits =
      .ok (withSign negative (digitsValue base digits)) := by
    refine integerValue_digits ?_ ?_ hdigits hrange
    · cases hmark <;> decide
    · cases negative <;> decide
  refine anyNumber_of_extent hlooks ?_
  rw [integerExtent, hsplit]
  dsimp only
  rw [hdigitRun, htype]
  change (rest, (integerValue (widest negative) negative base digits).map fun _ => ()) = _
  rw [hvalue]
  rfl

/-- Behind the mark of a base that may name a type the digits are read, with the name next. -/
theorem IsTypedBase.digitRun_append {mark named : List Char} (hmark : IsTypedBase base mark)
    (hdigits : IsDigits base digits) (hnamed : ∀ c ∈ named.head?, c = 'i' ∨ c = 'u') :
    digitRun (mark ++ digits ++ named) = (base, digits, named) := by
  have hstop : ∀ c ∈ named.head?, isIntegerChar c = false := by
    intro c hc
    rcases hnamed c hc with rfl | rfl <;> decide
  have hspan := Text.span_append (isIntegerChar_of_digits hdigits.digits) hstop
  cases hmark with
  | decimal =>
    obtain ⟨first, more, hfirst, -⟩ := hdigits.exists_cons
    have hfloat := isFloatChar_of_digits hdigits.digits
    rw [List.nil_append, Ron.digitRun_append (by simp [hfirst]) hfloat, hspan]
    intro c hc
    rcases hnamed c hc with rfl | rfl <;> decide
  | binary => exact congrArg (Prod.mk _) hspan

/-- There a float goes on no further than an integer. -/
theorem IsTypedBase.length_le {mark named : List Char} (hmark : IsTypedBase base mark)
    (hdigits : IsDigits base digits) (hnamed : ∀ c ∈ named.head?, c = 'i' ∨ c = 'u') :
    ((mark ++ digits ++ named).takeWhile isFloatChar).length ≤
      ((mark ++ digits ++ named).takeWhile isIntegerChar).length := by
  cases hmark with
  | decimal =>
    have hstops : ∀ c ∈ named.head?, isFloatChar c = false ∧ isIntegerChar c = false := by
      intro c hc
      rcases hnamed c hc with rfl | rfl <;> decide
    have hshort := Text.span_append (isFloatChar_of_digits hdigits.digits)
      fun c hc => (hstops c hc).1
    have hlong := Text.span_append (isIntegerChar_of_digits hdigits.digits)
      fun c hc => (hstops c hc).2
    rw [List.span_eq_takeWhile_dropWhile, Prod.mk.injEq] at hshort hlong
    rw [List.nil_append, hshort.1, hlong.1]
  | binary => simp [isFloatChar, isIntegerChar, hexDigit?]

/-- Numbers that name their type are passed over. -/
theorem anyNumber_typed {mark : List Char} (hsign : IsSign negative sign)
    (hmark : IsTypedBase base mark) (hdigits : IsDigits base digits) (ht : t ∈ IntegerType.all)
    (hrange : t.holds (withSign negative (digitsValue base digits)) = true) (hrest : Ends rest) :
    anyNumber (sign ++ (mark ++ digits ++ t.name.toList) ++ rest) = .ok ((), rest) := by
  let named := t.name.toList ++ rest
  let body := mark ++ digits ++ named
  have hnamed : ∀ c ∈ named.head?, c = 'i' ∨ c = 'u' := by
    intro c hc
    rw [List.head?_append] at hc
    rcases integerTypes_head? t ht with hname | hname
    all_goals
      rw [hname] at hc
      cases hc
      simp
  have hrun : ∀ c ∈ mark ++ digits, isIntegerChar c = true := by
    refine List.forall_mem_append.mpr ⟨?_, isIntegerChar_of_digits hdigits.digits⟩
    cases hmark with
    | decimal => nofun
    | binary => exact List.all_eq_true.mp (by decide)
  have hstop : ∀ c ∈ named.head?, isIntegerChar c = false := by
    intro c hc
    rcases hnamed c hc with rfl | rfl <;> decide
  have hsplit : splitSign (sign ++ (mark ++ digits ++ t.name.toList) ++ rest) =
      (negative, body) := by
    obtain ⟨first, more, rfl, hfirst⟩ := hdigits.exists_cons
    rw [List.append_assoc, List.append_assoc (mark ++ _)]
    refine hsign.splitSign_append ?_
    cases hmark <;> rintro c ⟨⟩
    · constructor <;> rintro rfl <;> revert hfirst <;> decide
    · decide
  have htype : namedType? body = some (t, rest) :=
    namedType?_of_mem ht (Text.dropWhile_append hrun hstop) hrest
  have hvalue : integerValue t negative base digits =
      .ok (withSign negative (digitsValue base digits)) := by
    have hbounds : ∀ t ∈ IntegerType.all, t.low ≤ 0 ∧ 0 ≤ t.high := by decide
    exact integerValue_digits (by cases hmark <;> decide) (hbounds t ht) hdigits hrange
  refine anyNumber_of_extent (not_looksFloat hsplit (hmark.length_le hdigits hnamed)) ?_
  rw [integerExtent, hsplit]
  dsimp only
  rw [hmark.digitRun_append hdigits hnamed, htype]
  dsimp only
  rw [hvalue]
  rfl

theorem IsInteger.anyNumber_append {text : List Char} (h : IsInteger text) (hrest : Ends rest) :
    anyNumber (text ++ rest) = .ok ((), rest) := by
  cases h with
  | based hsign hmark hdigits hrange => exact anyNumber_based hsign hmark hdigits hrange hrest
  | typed hsign hmark hdigits ht hrange =>
    exact anyNumber_typed hsign hmark hdigits ht hrange hrest

/-! ## Floats -/

/-- A text without its underscores. -/
def withoutGroups (cs : List Char) : List Char := cs.filter (· ≠ '_')

theorem isDigit_of_mem_withoutGroups (h : ∀ c ∈ digits, c ≠ '_' → isDigitOf 10 c = true) :
    ∀ c ∈ withoutGroups digits, c.isDigit = true := by
  intro c hc
  obtain ⟨hmem, hgroup⟩ := List.mem_filter.mp hc
  exact isDigit_of_isDigitOf (h c hmem (by simpa using hgroup))

theorem withoutGroups_ne_nil {c : Char} (hc : c ∈ digits) (hgroup : c ≠ '_') :
    withoutGroups digits ≠ [] :=
  List.ne_nil_of_mem (List.mem_filter.mpr ⟨hc, by simpa using hgroup⟩)

theorem isDigitOf_underscore : isDigitOf base '_' = false := by simp [isDigitOf, hexDigit?]

theorem ungrouped?_digit {c : Char} (hc : isDigitOf 10 c = true) (mayGroup : Bool)
    (cs : List Char) :
    ungrouped? mayGroup (c :: cs) = (ungrouped? true cs).map (c :: ·) := by
  have hmarks : ∀ mark, isDigitOf 10 mark = false → c ≠ mark := by
    rintro mark hmark rfl
    rw [hmark] at hc
    cases hc
  rw [ungrouped?, if_neg (hmarks '_' (by decide)), if_neg (hmarks '.' (by decide)),
    if_neg (not_or.mpr ⟨hmarks '+' (by decide), hmarks '-' (by decide)⟩)]

/-- Behind digits, and behind the mark of an exponent, there may be underscores. -/
theorem ungrouped?_group (h : ∀ c ∈ digits, c ≠ '_' → isDigitOf 10 c = true) (cs : List Char) :
    ungrouped? true (digits ++ cs) = (ungrouped? true cs).map (withoutGroups digits ++ ·) := by
  induction digits with
  | nil => simp [withoutGroups]
  | cons c digits ih =>
    obtain ⟨hc, hdigits⟩ := List.forall_mem_cons.mp h
    rw [List.cons_append]
    by_cases hgroup : c = '_'
    · rw [ungrouped?, if_pos hgroup, if_pos rfl, ih hdigits]
      simp [withoutGroups, hgroup]
    · rw [ungrouped?_digit (hc hgroup), ih hdigits, Option.map_map]
      simp [withoutGroups, hgroup, Function.comp_def]

theorem ungrouped?_digits (h : IsDigits 10 digits) (mayGroup : Bool) (cs : List Char) :
    ungrouped? mayGroup (digits ++ cs) = (ungrouped? true cs).map (withoutGroups digits ++ ·) := by
  rw [← ungrouped?_group h.digits]
  obtain ⟨c, more, rfl, hc⟩ := h.exists_cons
  rw [List.cons_append, ungrouped?_digit hc, ungrouped?_digit hc]

theorem IsSign.ungrouped?_append (h : IsSign negative sign) (mayGroup : Bool) (cs : List Char) :
    ungrouped? mayGroup (sign ++ cs) = (ungrouped? mayGroup cs).map (sign ++ ·) := by
  cases h with
  | absent => simp
  | plus => rfl
  | minus => rfl

theorem IsDigits.withoutGroups_ne_nil (h : IsDigits 10 digits) : withoutGroups digits ≠ [] := by
  obtain ⟨c, more, rfl, hc⟩ := h.exists_cons
  refine PlantGrammar.Ron.withoutGroups_ne_nil List.mem_cons_self ?_
  rintro rfl
  rw [isDigitOf_underscore] at hc
  cases hc

/-- A point between digits, without its underscores. -/
theorem IsMantissa.exists_plain {mantissa : List Char} (h : IsMantissa mantissa) :
    ∃ whole tail places, (tail = [] ∧ places = [] ∨ tail = '.' :: places) ∧
      (∀ c ∈ whole ++ places, c.isDigit = true) ∧ whole ++ places ≠ [] ∧
      ∃ mayGroup, ∀ cs, ungrouped? false (mantissa ++ cs) =
        (ungrouped? mayGroup cs).map (whole ++ tail ++ ·) := by
  cases h with
  | whole h =>
    refine ⟨withoutGroups mantissa, [], [], .inl ⟨rfl, rfl⟩, ?_, ?_, true, fun cs => ?_⟩
    · simpa using isDigit_of_mem_withoutGroups h.digits
    · simpa using h.withoutGroups_ne_nil
    · rw [ungrouped?_digits h, List.append_nil]
  | @point digits h =>
    refine ⟨withoutGroups digits, ['.'], [], .inr rfl, ?_, ?_, false, fun cs => ?_⟩
    · simpa using isDigit_of_mem_withoutGroups h.digits
    · simpa using h.withoutGroups_ne_nil
    · have hpoint : ungrouped? true ('.' :: cs) = (ungrouped? false cs).map ('.' :: ·) := rfl
      rw [List.append_assoc, List.singleton_append, ungrouped?_digits h, hpoint, Option.map_map]
      simp [Function.comp_def]
  | @places digits places h hplaces =>
    refine ⟨withoutGroups digits, _, withoutGroups places, .inr rfl, ?_, ?_, true, fun cs => ?_⟩
    · exact List.forall_mem_append.mpr ⟨isDigit_of_mem_withoutGroups h.digits,
        isDigit_of_mem_withoutGroups hplaces.digits⟩
    · simp [h.withoutGroups_ne_nil]
    · have hpoint : ungrouped? true ('.' :: (places ++ cs)) =
          (ungrouped? false (places ++ cs)).map ('.' :: ·) := rfl
      rw [List.append_assoc, List.cons_append, ungrouped?_digits h, hpoint,
        ungrouped?_digits hplaces, Option.map_map, Option.map_map]
      simp [Function.comp_def]
  | @fraction places hplaces =>
    refine ⟨[], _, withoutGroups places, .inr rfl, ?_, ?_, true, fun cs => ?_⟩
    · simpa using isDigit_of_mem_withoutGroups hplaces.digits
    · simpa using hplaces.withoutGroups_ne_nil
    · have hpoint : ungrouped? false ('.' :: (places ++ cs)) =
          (ungrouped? false (places ++ cs)).map ('.' :: ·) := rfl
      rw [List.cons_append, hpoint, ungrouped?_digits hplaces, Option.map_map]
      simp [Function.comp_def]

theorem isSome_exponent? {mark : Char} (hmark : mark = 'e' ∨ mark = 'E')
    (hsign : IsSign negative sign) (hdigits : ∀ c ∈ digits, c.isDigit = true)
    (hne : digits ≠ []) : (Scientific.exponent? (mark :: (sign ++ digits))).isSome = true := by
  have hall : (digits.isEmpty || !digits.all Char.isDigit) = false := by
    simpa [hne] using hdigits
  have hmarks : ¬ (mark ≠ 'e' ∧ mark ≠ 'E') := by
    rcases hmark with rfl | rfl <;> decide
  cases hsign with
  | absent =>
    obtain ⟨c, more, rfl⟩ := List.exists_cons_of_ne_nil hne
    have hc := hdigits c List.mem_cons_self
    have hsigns : ∀ mark, mark.isDigit = false → ∀ ds, c :: more ≠ mark :: ds := by
      rintro mark hmark ds heq
      obtain ⟨rfl, -⟩ := List.cons.inj heq
      rw [hmark] at hc
      cases hc
    rw [List.nil_append, Scientific.exponent?, if_neg hmarks, if_neg (by rw [hall]; decide)]
    · rfl
    · exact hsigns '-' (by decide)
    · exact hsigns '+' (by decide)
  | plus =>
    rw [List.singleton_append, Scientific.exponent?, if_neg hmarks, if_neg (by rw [hall]; decide)]
    rfl
  | minus =>
    rw [List.singleton_append, Scientific.exponent?, if_neg hmarks, if_neg (by rw [hall]; decide)]
    rfl

/-- An exponent, without its underscores. -/
theorem IsExponent.exists_plain {exponent : List Char} (h : IsExponent exponent) :
    ∃ plain, (∀ mayGroup, ungrouped? mayGroup exponent = some plain) ∧
      (Scientific.exponent? plain).isSome = true ∧
      ∀ c ∈ plain.head?, c.isDigit = false ∧ c ≠ '.' := by
  cases h with
  | absent => exact ⟨[], fun _ => rfl, rfl, nofun⟩
  | @present mark negative sign digits hmark hsign hdigits =>
    obtain ⟨c, hc, hdigit⟩ := List.any_eq_true.mp hdigits.nonempty
    have hgroup : c ≠ '_' := by
      rintro rfl
      rw [isDigitOf_underscore] at hdigit
      cases hdigit
    have hne := withoutGroups_ne_nil hc hgroup
    have hall := isDigit_of_mem_withoutGroups hdigits.digits
    refine ⟨mark :: (sign ++ withoutGroups digits), fun mayGroup => ?_, ?_, ?_⟩
    · have hdigits' := ungrouped?_group hdigits.digits []
      rw [List.append_nil] at hdigits'
      have hbehind : ungrouped? true (sign ++ digits) = some (sign ++ withoutGroups digits) := by
        rw [hsign.ungrouped?_append, hdigits']
        simp [ungrouped?]
      have hfirst : ungrouped? mayGroup (mark :: (sign ++ digits)) =
          (ungrouped? true (sign ++ digits)).map (mark :: ·) := by
        rcases hmark with rfl | rfl <;> rfl
      rw [hfirst, hbehind]
      rfl
    · exact isSome_exponent? hmark hsign hall hne
    · rintro c ⟨⟩
      rcases hmark with rfl | rfl <;> decide

/-- Digits around a point with an exponent behind them are a numeral. -/
theorem isSome_ofChars? {whole tail places exponent : List Char}
    (htail : tail = [] ∧ places = [] ∨ tail = '.' :: places)
    (hdigits : ∀ c ∈ whole ++ places, c.isDigit = true) (hne : whole ++ places ≠ [])
    (hexponent : (Scientific.exponent? exponent).isSome = true)
    (hhead : ∀ c ∈ exponent.head?, c.isDigit = false ∧ c ≠ '.') :
    (Scientific.ofChars? (whole ++ tail ++ exponent)).isSome = true := by
  obtain ⟨hwhole, hplaces⟩ := List.forall_mem_append.mp hdigits
  have hexponent' : ∀ c ∈ exponent.head?, c.isDigit = false := fun c hc => (hhead c hc).1
  rcases htail with ⟨rfl, rfl⟩ | rfl
  · have hpoint : ∀ ds, exponent ≠ '.' :: ds := by
      rintro ds rfl
      exact (hhead '.' rfl).2 rfl
    have hspan := Text.span_append hwhole hexponent'
    rw [List.append_nil] at hne
    rw [List.append_nil, Scientific.ofChars?, Scientific.spanDigits, hspan]
    dsimp only
    split
    · next ds => exact absurd rfl (hpoint ds)
    · dsimp only
      rw [if_neg (by simpa using hne), Option.isSome_map, hexponent]
  · have hpoint : ∀ c ∈ ('.' :: (places ++ exponent)).head?, c.isDigit = false := by
      rintro c ⟨⟩
      decide
    have hspan := Text.span_append hwhole hpoint
    have hspan' := Text.span_append hplaces hexponent'
    rw [List.append_assoc, List.cons_append, Scientific.ofChars?, Scientific.spanDigits, hspan]
    simp only [Scientific.spanDigits, hspan']
    rw [if_neg (by simpa using hne), Option.isSome_map, hexponent]

theorem isSome_pattern? {f : Format} (h : (Scientific.ofChars? cs).isSome = true) :
    (Encoding.pattern? f cs).isSome = true := by
  rw [Encoding.pattern?]
  split
  · rfl
  · split
    · rfl
    · rw [Option.isSome_map, h]

/-- Numerals, without their underscores, are read as numbers. -/
theorem isSome_ungrouped {mantissa exponent : List Char} (hsign : IsSign negative sign)
    (hmantissa : IsMantissa mantissa) (hexponent : IsExponent exponent) :
    ((ungrouped? false (sign ++ (mantissa ++ exponent))).bind
      (Encoding.ofChars? .binary64)).isSome = true := by
  obtain ⟨whole, tail, places, htail, hdigits, hne, mayGroup, hplain⟩ := hmantissa.exists_plain
  obtain ⟨plain, hplain', hvalue, hhead⟩ := hexponent.exists_plain
  have hpattern : (Encoding.pattern? .binary64 (whole ++ tail ++ plain)).isSome = true :=
    isSome_pattern? (isSome_ofChars? htail hdigits hne hvalue hhead)
  rw [hsign.ungrouped?_append, hplain, hplain']
  simp only [Option.map_some, Option.bind_some]
  cases hsign with
  | absent =>
    obtain ⟨c, more, hcs, hc⟩ : ∃ c more, whole ++ tail ++ plain = c :: more ∧
        c ≠ '-' ∧ c ≠ '+' := by
      cases whole with
      | cons c whole =>
        refine ⟨c, _, rfl, ?_⟩
        have hc := hdigits c List.mem_cons_self
        constructor <;> rintro rfl <;> cases hc
      | nil =>
        rcases htail with ⟨rfl, rfl⟩ | rfl
        · exact absurd rfl hne
        · exact ⟨'.', _, rfl, by decide⟩
    rw [hcs] at hpattern
    rw [List.nil_append, hcs, Encoding.ofChars?]
    · rw [Option.isSome_map, hpattern]
    · exact fun _ heq => hc.1 (List.cons.inj heq).1
    · exact fun _ heq => hc.2 (List.cons.inj heq).1
  | plus => exact (Option.isSome_map ..).trans hpattern
  | minus => exact (Option.isSome_map ..).trans hpattern

/-- The numeral of a float begins with a digit or the point, and goes on so. -/
theorem IsMantissa.exists_cons {mantissa : List Char} (h : IsMantissa mantissa) :
    ∃ c more, mantissa = c :: more ∧ (c.isDigit = true ∨ c = '.') := by
  cases h with
  | whole h =>
    obtain ⟨c, more, rfl, hc⟩ := h.exists_cons
    exact ⟨c, more, rfl, .inl (isDigit_of_isDigitOf hc)⟩
  | point h =>
    obtain ⟨c, more, rfl, hc⟩ := h.exists_cons
    exact ⟨c, _, rfl, .inl (isDigit_of_isDigitOf hc)⟩
  | places h _ =>
    obtain ⟨c, more, rfl, hc⟩ := h.exists_cons
    exact ⟨c, _, rfl, .inl (isDigit_of_isDigitOf hc)⟩
  | fraction _ => exact ⟨'.', _, rfl, .inr rfl⟩

theorem IsMantissa.isFloatChar {mantissa : List Char} (h : IsMantissa mantissa) :
    ∀ c ∈ mantissa, isFloatChar c = true := by
  have hpoint : PlantGrammar.Ron.isFloatChar '.' = true := by decide
  cases h with
  | whole h => exact isFloatChar_of_digits h.digits
  | point h =>
    exact List.forall_mem_append.mpr ⟨isFloatChar_of_digits h.digits, by simpa using hpoint⟩
  | places h hplaces =>
    exact List.forall_mem_append.mpr ⟨isFloatChar_of_digits h.digits,
      List.forall_mem_cons.mpr ⟨hpoint, isFloatChar_of_digits hplaces.digits⟩⟩
  | fraction hplaces =>
    exact List.forall_mem_cons.mpr ⟨hpoint, isFloatChar_of_digits hplaces.digits⟩

theorem IsSign.isFloatChar (h : IsSign negative sign) : ∀ c ∈ sign, isFloatChar c = true := by
  cases h <;> simp [PlantGrammar.Ron.isFloatChar]

theorem IsExponent.isFloatChar {exponent : List Char} (h : IsExponent exponent) :
    ∀ c ∈ exponent, isFloatChar c = true := by
  cases h with
  | absent => nofun
  | present hmark hsign hdigits =>
    refine List.forall_mem_cons.mpr ⟨?_, List.forall_mem_append.mpr
      ⟨hsign.isFloatChar, isFloatChar_of_digits hdigits.digits⟩⟩
    rcases hmark with rfl | rfl <;> decide

/-- A number that is a float up to where a value may end is passed over, if what belongs to
an integer ends there too, or earlier because a float goes on. -/
theorem anyNumber_of_float {x : Encoding .binary64} (hfloat : float? floatTypes cs = some (x, rest))
    (h : looksFloat cs = false → (integerExtent cs).1 = rest ∨
      ∃ fault, (integerExtent cs).2 = .error fault ∧ rest.length ≤ (integerExtent cs).1.length) :
    anyNumber cs = .ok ((), rest) := by
  have hfloat' : (float? ["f32", "f64"] cs).map (·.2) = some rest := congrArg (·.map (·.2)) hfloat
  rw [anyNumber, hfloat']
  cases hlooks : looksFloat cs
  · rw [if_neg (by decide)]
    cases hextent : integerExtent cs with
    | mk after outcome =>
      rw [hextent] at h
      rcases h hlooks with rfl | ⟨fault, rfl, hlength⟩
      · cases outcome with
        | ok _ => rfl
        | error fault => exact if_pos (Nat.le_refl _)
      · exact if_pos hlength
  · rfl

/-- Where a run of digits reaches as far as a numeral, the numeral has only digits. -/
theorem forall_mem_of_length_le {p : Char → Bool} {front : List Char} (rest : List Char)
    (h : front.length ≤ ((front ++ rest).takeWhile p).length) : ∀ c ∈ front, p c = true := by
  have hfront : front <+: (front ++ rest).takeWhile p :=
    List.prefix_of_prefix_length_le (List.prefix_append _ _) (List.takeWhile_prefix p) h
  exact fun c hc => List.mem_takeWhile_imp (hfront.mem hc)

section Numerals

variable {numeral behind : List Char} {t : String}

/-- Behind a numeral there is the name of a type, or a value may end. -/
theorem head?_floatType_append (ht : t ∈ "" :: floatTypes) (hrest : Ends rest) :
    ∀ c ∈ (t.toList ++ rest).head?, c = 'f' ∨ c ∈ stops := by
  intro c hc
  rcases List.mem_cons.mp ht with rfl | ht
  · exact .inr (hrest c hc)
  · have hletter : ∀ t ∈ floatTypes, t.toList.head? = some 'f' := by decide
    rw [List.head?_append, hletter t ht] at hc
    exact .inl (Option.some.inj hc).symm

theorem isFloatChar_floatType_append (ht : t ∈ "" :: floatTypes) (hrest : Ends rest) :
    ∀ c ∈ (t.toList ++ rest).head?, isFloatChar c = false := by
  intro c hc
  rcases head?_floatType_append ht hrest c hc with rfl | hc
  · decide
  · exact Bool.eq_false_iff.mpr
      (List.any_eq_false.mp (by decide : stops.any isFloatChar = false) c hc)

/-- The sign of a numeral is split off. -/
theorem IsSign.splitSign_numeral (hsign : IsSign negative sign)
    (h : ∃ c more, numeral = c :: more ∧ (c.isDigit = true ∨ c = '.')) (behind : List Char) :
    splitSign (sign ++ numeral ++ behind) = (negative, numeral ++ behind) := by
  obtain ⟨c, more, rfl, hc⟩ := h
  rw [List.append_assoc]
  refine hsign.splitSign_append ?_
  rintro d ⟨⟩
  rcases hc with hdigit | rfl
  · constructor <;> rintro rfl <;> cases hdigit
  · decide

/-- A numeral that does not look like a float has only digits of integers. -/
theorem isIntegerChar_of_looksFloat (hsplit : splitSign cs = (negative, numeral ++ behind))
    (hnumeral : ∀ c ∈ numeral, isFloatChar c = true)
    (hbehind : ∀ c ∈ behind.head?, isFloatChar c = false) (h : looksFloat cs = false) :
    ∀ c ∈ numeral, isIntegerChar c = true := by
  have hspan := Text.span_append hnumeral hbehind
  rw [List.span_eq_takeWhile_dropWhile, Prod.mk.injEq] at hspan
  rw [looksFloat, hsplit, hspan.1] at h
  exact forall_mem_of_length_le behind (Nat.not_lt.mp (of_decide_eq_false h))

/-- What belongs to an integer ends behind the name of the type, if the numeral has only
digits of integers: the name has no others either. -/
theorem integerExtent_numeral
    (hsplit : splitSign cs = (negative, numeral ++ (t.toList ++ rest))) (hne : numeral ≠ [])
    (hnumeral : ∀ c ∈ numeral, isFloatChar c = true)
    (hdigits : ∀ c ∈ numeral, isIntegerChar c = true) (ht : t ∈ "" :: floatTypes)
    (hrest : Ends rest) : (integerExtent cs).1 = rest := by
  have hrun : ∀ c ∈ numeral ++ t.toList, isIntegerChar c = true := by
    have htypes : ∀ t ∈ "" :: floatTypes, t.toList.all isIntegerChar = true := by decide
    exact List.forall_mem_append.mpr ⟨hdigits, List.all_eq_true.mp (htypes t ht)⟩
  have hspan : (numeral ++ (t.toList ++ rest)).span isIntegerChar =
      (numeral ++ t.toList, rest) := by
    rw [← List.append_assoc]
    exact Text.span_append hrun (isIntegerChar_of_ends hrest)
  have hdigitRun : digitRun (numeral ++ (t.toList ++ rest)) = (10, numeral ++ t.toList, rest) := by
    rw [digitRun_append hne hnumeral, hspan]
    intro c hc hmark
    rcases head?_floatType_append ht hrest c hc with rfl | hc
    · revert hmark
      decide
    · have hmarks : ['x', 'o', 'b'].all (fun c => !stops.contains c) = true := by decide
      have := List.all_eq_true.mp hmarks c hmark
      simp [hc] at this
  have htype : namedType? (numeral ++ (t.toList ++ rest)) = none := by
    refine namedType?_eq_none ?_
    rw [List.span_eq_takeWhile_dropWhile, Prod.mk.injEq] at hspan
    rw [hspan.2]
    exact fun c hc => ⟨hrest.head?_ne (by decide) c hc, hrest.head?_ne (by decide) c hc⟩
  rw [integerExtent, hsplit]
  dsimp only
  rw [hdigitRun, htype]

end Numerals

/-- Numerals are passed over, though they may look like integers. -/
theorem anyNumber_numeral {mantissa exponent : List Char} {t : String}
    (hsign : IsSign negative sign) (hmantissa : IsMantissa mantissa)
    (hexponent : IsExponent exponent) (ht : t ∈ "" :: floatTypes) (hrest : Ends rest) :
    anyNumber (sign ++ (mantissa ++ exponent) ++ (t.toList ++ rest)) = .ok ((), rest) := by
  obtain ⟨c, more, rfl, hc⟩ := hmantissa.exists_cons
  have hnumeral : ∀ d ∈ c :: more ++ exponent, isFloatChar d = true :=
    List.forall_mem_append.mpr ⟨hmantissa.isFloatChar, hexponent.isFloatChar⟩
  obtain ⟨x, hx⟩ := Option.isSome_iff_exists.mp (isSome_ungrouped hsign hmantissa hexponent)
  have hfloat : float? floatTypes (sign ++ (c :: more ++ exponent) ++ (t.toList ++ rest)) =
      some (x, rest) := by
    have hlength : sign.length ≤ 1 := by cases hsign <;> decide
    refine float?_run (List.Subset.refl _) ht ?_
      (List.forall_mem_append.mpr ⟨hsign.isFloatChar, hnumeral⟩) hx hrest
    rw [List.append_assoc]
    exact findSome?_floatWord?_numeral hlength hc _
  have hsplit := hsign.splitSign_numeral ⟨c, more ++ exponent, rfl, hc⟩ (t.toList ++ rest)
  refine anyNumber_of_float hfloat fun hlooks => .inl ?_
  have hdigits := isIntegerChar_of_looksFloat hsplit hnumeral
    (isFloatChar_floatType_append ht hrest) hlooks
  exact integerExtent_numeral hsplit (List.cons_ne_nil c _) hnumeral hdigits ht hrest

/-- Words behind a sign are passed over. -/
theorem anyNumber_word {word t : String} (hword : word ∈ ["+inf", "-inf", "+NaN", "-NaN"])
    (ht : t ∈ "" :: floatTypes) (hrest : Ends rest) :
    anyNumber (word.toList ++ t.toList ++ rest) = .ok ((), rest) := by
  have hword' : ["+inf", "-inf", "+NaN", "-NaN"] ⊆ floatWords := by decide
  have hvalue : ∀ word ∈ ["+inf", "-inf", "+NaN", "-NaN"],
      (Encoding.ofChars? .binary64 word.toList).isSome = true := by decide
  obtain ⟨x, hx⟩ := Option.isSome_iff_exists.mp (hvalue word hword)
  have hfloat : float? floatTypes (word.toList ++ t.toList ++ rest) = some (x, rest) := by
    have hkeyword : keyword? (word ++ t) (word.toList ++ t.toList ++ rest) = some rest := by
      rw [← String.toList_append]
      exact keyword?_append (word ++ t) hrest
    rw [float?_word (List.Subset.refl _) (hword' hword) ht hkeyword, hx]
    rfl
  refine anyNumber_of_float hfloat fun _ => .inr ⟨.malformed, ?_⟩
  have hextent : integerExtent (word.toList ++ t.toList ++ rest) =
      (word.toList.tail ++ t.toList ++ rest, .error .malformed) := by
    simp only [List.mem_cons, List.not_mem_nil, or_false] at hword
    rcases hword with rfl | rfl | rfl | rfl <;> rfl
  rw [hextent]
  refine ⟨rfl, ?_⟩
  rw [List.length_append]
  exact Nat.le_add_left _ _

theorem IsFloat.anyNumber_append {text : List Char} (h : IsFloat text) (hrest : Ends rest) :
    anyNumber (text ++ rest) = .ok ((), rest) := by
  cases h with
  | numeral hsign hmantissa hexponent ht =>
    rw [List.append_assoc]
    exact anyNumber_numeral hsign hmantissa hexponent ht hrest
  | word hword ht => exact anyNumber_word hword ht hrest

end PlantGrammar.Ron
