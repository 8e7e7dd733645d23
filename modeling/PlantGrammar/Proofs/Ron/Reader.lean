import PlantGrammar.Proofs.Text.Runs
import PlantGrammar.Ron.Reader

/-!
# Reading what was written, piece by piece

What the readers do in front of a text that was written for them: a chain goes on
with what its first reader leaves, blanks are passed over up to the next thing to
see, and items that stand on lines of their own, each with a comma behind it, are
read one after the other.
-/

namespace PlantGrammar.Ron.Reader

variable {α β σ : Type}

/-! ## Chains -/

/-- Behind a reader that succeeds a chain goes on with the text that is left. -/
theorem bind_ok {r : Reader α} {f : α → Reader β} {cs rest : List Char} {a : α}
    (h : r cs = .ok (a, rest)) : (r >>= f) cs = f a rest := by
  change (r cs >>= fun p => f p.1 p.2) = _
  rw [h]
  rfl

/-- A chain fails where its first reader does. -/
theorem bind_error {r : Reader α} {f : α → Reader β} {cs : List Char} {fault : Fault}
    (h : r cs = .error fault) : (r >>= f) cs = .error fault := by
  change (r cs >>= fun p => f p.1 p.2) = _
  rw [h]
  rfl

/-- A chain succeeds where both of its readers do. -/
theorem bind_eq_ok {r : Reader α} {f : α → Reader β} {cs rest : List Char} {b : β} :
    (r >>= f) cs = .ok (b, rest) ↔ ∃ a mid, r cs = .ok (a, mid) ∧ f a mid = .ok (b, rest) := by
  constructor
  · intro h
    cases hr : r cs with
    | error fault =>
      rw [bind_error hr] at h
      cases h
    | ok found => exact ⟨found.1, found.2, rfl, bind_ok (f := f) hr ▸ h⟩
  · rintro ⟨a, mid, hr, hf⟩
    exact (bind_ok hr).trans hf

theorem expect_cons (c : Char) (cs : List Char) : expect c (c :: cs) = .ok ((), cs) :=
  if_pos rfl

theorem expect_eq_ok {c : Char} {cs rest : List Char} :
    expect c cs = .ok ((), rest) ↔ cs = c :: rest := by
  cases cs with
  | nil => exact ⟨nofun, nofun⟩
  | cons d cs =>
    by_cases hd : d = c
    · rw [hd, expect_cons]
      simp
    · rw [expect.eq_def]
      simp [hd]

theorem accept_cons (c : Char) (cs : List Char) : accept c (c :: cs) = .ok (true, cs) :=
  if_pos rfl

theorem accept_of_ne {c d : Char} (h : d ≠ c) (cs : List Char) :
    accept c (d :: cs) = .ok (false, d :: cs) := if_neg h

/-- Where each of some pieces takes a character at least, the text they make up is as
long as they are many. -/
theorem length_le_flatMap {write : β → List Char} {bs : List β} (h : ∀ b, write b ≠ []) :
    bs.length ≤ (bs.flatMap write).length := by
  induction bs with
  | nil => exact Nat.zero_le _
  | cons b bs ih =>
    have hfirst := List.length_pos_of_ne_nil (h b)
    rw [List.flatMap_cons, List.length_append, List.length_cons]
    omega

/-- The marks that part values, or end what encloses them. -/
def enders : List Char := [',', ':', ')', ']', '\x7d']

/-- The characters that may stand behind a value: a mark, a blank, or the slash that
begins a comment. -/
def stops : List Char :=
  enders ++ ['/', ' ', '\t', '\n', '\r', '\x0b', '\x0c', '\u0085', '\u200e', '\u200f',
    '\u2028', '\u2029']

/-- What may follow a value: nothing, a mark, a blank or a comment. -/
def Ends (rest : List Char) : Prop := ∀ c ∈ rest.head?, c ∈ stops

theorem ends_cons {c : Char} (h : c ∈ stops) (rest : List Char) : Ends (c :: rest) := by
  rintro d ⟨⟩
  exact h

theorem ends_comma (rest : List Char) : Ends (',' :: rest) := ends_cons (by decide) rest

theorem Ends.head?_ne {c : Char} {rest : List Char} (h : Ends rest) (hc : c ∉ stops) :
    ∀ d ∈ rest.head?, d ≠ c := by
  rintro d hd rfl
  exact hc (h d hd)

/-- What no character that may stand behind a value has, what follows a value does not
begin with. -/
theorem Ends.head?_eq_false {p : Char → Bool} {rest : List Char} (h : Ends rest)
    (hp : stops.any p = false) : ∀ c ∈ rest.head?, p c = false :=
  fun c hc => Bool.eq_false_iff.mpr (List.any_eq_false.mp hp c (h c hc))

/-! ## Blanks -/

/-- Only a slash may begin a comment. -/
theorem skipBlank_cons {c : Char} {cs : List Char} (h : c ≠ '/') :
    skipBlank .between (c :: cs) =
      if isBlank c then skipBlank .between cs else .ok (c :: cs) := by
  rw [skipBlank.eq_def]
  split <;> simp_all

/-- Blanks are dropped, unless a comment begins behind them. -/
theorem blank_eq {cs : List Char} (h : (cs.dropWhile isBlank).head? ≠ some '/') :
    blank cs = .ok ((), cs.dropWhile isBlank) := by
  have hskip : skipBlank .between cs = .ok (cs.dropWhile isBlank) := by
    induction cs with
    | nil => rfl
    | cons c cs ih =>
      by_cases hblank : isBlank c = true
      · have hslash : c ≠ '/' := by
          rintro rfl
          revert hblank
          decide
        rw [List.dropWhile_cons_of_pos hblank] at h ⊢
        rw [skipBlank_cons hslash, if_pos hblank, ih h]
      · rw [List.dropWhile_cons_of_neg hblank] at h ⊢
        rw [skipBlank_cons fun heq => h (congrArg some heq), if_neg hblank]
  rw [blank, hskip]
  rfl

/-- A character that stops the search for blanks and comments. -/
def Seen (c : Char) : Prop := isBlank c = false ∧ c ≠ '/'

instance (c : Char) : Decidable (Seen c) := inferInstanceAs (Decidable (_ ∧ _))

theorem Seen.dropWhile_isBlank {c : Char} (h : Seen c) (rest : List Char) :
    (c :: rest).dropWhile isBlank = c :: rest :=
  List.dropWhile_cons_of_neg (by simp [h.1])

/-- Blanks are passed over up to something to see. -/
theorem Seen.blank_eq {c : Char} (h : Seen c) {cs rest : List Char}
    (hcs : cs.dropWhile isBlank = c :: rest) : blank cs = .ok ((), c :: rest) := by
  rw [Reader.blank_eq (by rw [hcs]; simpa using h.2), hcs]

theorem Seen.blank {c : Char} (h : Seen c) (rest : List Char) :
    blank (c :: rest) = .ok ((), c :: rest) :=
  h.blank_eq (h.dropWhile_isBlank rest)

/-- A text begins with something to see, other than a closing mark. -/
def Begins (close : Char) (cs : List Char) : Prop :=
  ∃ c rest, cs = c :: rest ∧ Seen c ∧ c ≠ close

theorem Begins.append {close : Char} {cs : List Char} (h : Begins close cs)
    (rest : List Char) : Begins close (cs ++ rest) := by
  obtain ⟨c, more, rfl, hc⟩ := h
  exact ⟨c, more ++ rest, rfl, hc⟩

theorem Begins.blank_space {close : Char} {cs : List Char} (h : Begins close cs) :
    blank (' ' :: cs) = .ok ((), cs) := by
  obtain ⟨c, more, rfl, hseen, -⟩ := h
  refine hseen.blank_eq ?_
  rw [List.dropWhile_cons_of_pos (by decide), hseen.dropWhile_isBlank]

theorem Begins.blank {close : Char} {cs : List Char} (h : Begins close cs) :
    blank cs = .ok ((), cs) := by
  obtain ⟨c, more, rfl, hseen, -⟩ := h
  exact hseen.blank more

/-! ## Items -/

/-- A comma is taken with the blanks behind it. -/
theorem comma_cons {cs : List Char} (h : (cs.dropWhile isBlank).head? ≠ some '/') :
    comma (',' :: cs) = .ok (true, cs.dropWhile isBlank) := by
  rw [comma, bind_ok (Seen.blank (by decide) cs), bind_ok (accept_cons ',' cs),
    bind_ok (blank_eq h)]
  rfl

/-- Where something else is to be seen, no comma is taken. -/
theorem comma_of_ne {c : Char} (hseen : Seen c) (hc : c ≠ ',') (rest : List Char) :
    comma (c :: rest) = .ok (false, c :: rest) := by
  rw [comma, bind_ok (hseen.blank rest), bind_ok (accept_of_ne hc rest),
    bind_ok (hseen.blank rest)]
  rfl

/-- The items are read one after the other, each up to the comma behind it. -/
inductive ReadsEach (item : σ → Reader σ) (line : β → List Char) : List β → σ → σ → Prop
  | nil (s : σ) : ReadsEach item line [] s s
  | cons {b : β} {bs : List β} {s m s' : σ}
      (first : ∀ rest, item s (line b ++ ',' :: rest) = .ok (m, ',' :: rest))
      (others : ReadsEach item line bs m s') : ReadsEach item line (b :: bs) s s'

/-- Lines behind a margin, each with a comma at its end. -/
def lines (margin : List Char) (line : β → List Char) (bs : List β) : List Char :=
  bs.flatMap fun b => margin ++ line b ++ [',', '\n']

variable {close : Char} {item : σ → Reader σ} {line : β → List Char} {margin : List Char}
  {bs : List β} {rest after : List Char}

theorem lines_cons (b : β) (rest : List Char) :
    lines margin line (b :: bs) ++ rest =
      margin ++ (line b ++ ',' :: '\n' :: (lines margin line bs ++ rest)) := by
  simp [lines, List.append_assoc]

/-- Behind its margin a block of lines has something to see: its first line, or what
follows the lines. -/
theorem dropWhile_lines_head? (hmargin : ∀ c ∈ margin, isBlank c = true)
    (hlines : ∀ b ∈ bs, Begins close (line b)) (hrest : rest.dropWhile isBlank = close :: after)
    (hclose : Seen close) :
    ((lines margin line bs ++ rest).dropWhile isBlank).head? ≠ some '/' := by
  cases bs with
  | nil =>
    have hnone : (lines margin line [] ++ rest).dropWhile isBlank = close :: after := hrest
    rw [hnone]
    simpa using hclose.2
  | cons b bs =>
    obtain ⟨c, more, htext, hseen, -⟩ :=
      (hlines b List.mem_cons_self).append (',' :: '\n' :: (lines margin line bs ++ rest))
    rw [lines_cons, List.dropWhile_append_of_pos hmargin, htext, hseen.dropWhile_isBlank]
    simpa using hseen.2

theorem itemsWith_lines {s s' : σ} (h : ReadsEach item line bs s s')
    (hmargin : ∀ c ∈ margin, isBlank c = true) (hlines : ∀ b ∈ bs, Begins close (line b))
    (hrest : rest.dropWhile isBlank = close :: after) (hclose : Seen close) :
    ∀ fuel text : List Char, bs.length < fuel.length →
      text.dropWhile isBlank = (lines margin line bs ++ rest).dropWhile isBlank →
      itemsWith close item fuel true s text = .ok (s', close :: after) := by
  -- the text is known up to the blanks in front: the comma of one line has passed over
  -- those of the next
  induction h with
  | nil s =>
    intro fuel text hfuel htext
    obtain ⟨f, fuel, rfl⟩ := List.exists_cons_of_length_pos (Nat.zero_lt_of_lt hfuel)
    have hstop : text.dropWhile isBlank = close :: after := htext.trans hrest
    have hpeek : peek? (close :: after) = .ok (some close, close :: after) := rfl
    rw [itemsWith, bind_ok (hclose.blank_eq hstop), bind_ok hpeek, if_pos rfl]
    rfl
  | @cons b bs s m s' first others ih =>
    intro fuel text hfuel htext
    obtain ⟨f, fuel, rfl⟩ := List.exists_cons_of_length_pos (Nat.zero_lt_of_lt hfuel)
    obtain ⟨hb, hbs⟩ := List.forall_mem_cons.mp hlines
    let behind := '\n' :: (lines margin line bs ++ rest)
    obtain ⟨c, more, hline, hseen, hopen⟩ := hb.append (',' :: behind)
    have hstop : text.dropWhile isBlank = c :: more := by
      rw [htext, lines_cons, List.dropWhile_append_of_pos hmargin, hline,
        hseen.dropWhile_isBlank]
    have hpeek : peek? (c :: more) = .ok (some c, c :: more) := rfl
    have hitem : item s (c :: more) = .ok (m, ',' :: behind) := hline ▸ first behind
    have hcomma : comma (',' :: behind) = .ok (true, behind.dropWhile isBlank) :=
      comma_cons (dropWhile_lines_head? hmargin hbs hrest hclose)
    rw [itemsWith, bind_ok (hseen.blank_eq hstop), bind_ok hpeek,
      if_neg (by simpa using hopen), if_pos rfl, bind_ok hitem, bind_ok hcomma]
    exact ih hbs _ _ (by simpa using hfuel) (List.dropWhile_idempotent ..)

/-- **Items on lines of their own** are read one after the other, up to the closing
mark. -/
theorem items_lines {s s' : σ} (h : ReadsEach item line bs s s')
    (hmargin : ∀ c ∈ margin, isBlank c = true) (hlines : ∀ b ∈ bs, Begins close (line b))
    (hrest : rest.dropWhile isBlank = close :: after) (hclose : Seen close) :
    items close item s ('\n' :: (lines margin line bs ++ rest)) = .ok (s', close :: after) := by
  refine itemsWith_lines h hmargin hlines hrest hclose _ _ ?_ rfl
  have hlength : bs.length ≤ (lines margin line bs).length :=
    length_le_flatMap fun b => by simp
  rw [List.length_cons, List.length_append]
  omega

/-- Without items there is nothing between the marks. -/
theorem items_nil (hclose : Seen close) (s : σ) (after : List Char) :
    items close item s (close :: after) = .ok (s, close :: after) := by
  have hpeek : peek? (close :: after) = .ok (some close, close :: after) := rfl
  rw [items, itemsWith, bind_ok (hclose.blank after), bind_ok hpeek, if_pos rfl]
  rfl

end PlantGrammar.Ron.Reader
