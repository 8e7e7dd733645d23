import PlantGrammar.Proofs.Ron.Reader

/-!
# Gaps, and the items between them

Blanks and comments may stand between any two pieces of a text. `IsGap` says which
texts are such gaps and `Sequence` how items stand between commas, both without
regard to how a text is read.

A reader may stop in front of the gap behind what it takes or behind this gap, so the
laws below compare texts up to what `blank` passes over. `Reader.Takes` says that a
reader takes a text wherever a value may end; then `items` takes a whole sequence, one
item after the other (`Reader.items_takes`).
-/

namespace PlantGrammar.Ron

open Reader

/-! ## Gaps -/

/-- The rest of a comment in brackets, inside which as many others are open. -/
inductive IsComment : Nat → List Char → Prop
  | close : IsComment 0 ['*', '/']
  | closeInner {inner : Nat} {text : List Char} (h : IsComment inner text) :
      IsComment (inner + 1) ('*' :: '/' :: text)
  | openInner {inner : Nat} {text : List Char} (h : IsComment (inner + 1) text) :
      IsComment inner ('/' :: '*' :: text)
  | char {inner : Nat} {c : Char} {text : List Char} (hopen : c = '/' → text.head? ≠ some '*')
      (hclose : c = '*' → text.head? ≠ some '/') (h : IsComment inner text) :
      IsComment inner (c :: text)

/-- Blanks, comments to the end of a line, and comments in brackets. -/
inductive IsGap : List Char → Prop
  | nil : IsGap []
  | blank {c : Char} {gap : List Char} (hblank : isBlank c = true) (h : IsGap gap) :
      IsGap (c :: gap)
  | line {text gap : List Char} (hline : '\n' ∉ text) (h : IsGap gap) :
      IsGap ('/' :: '/' :: (text ++ '\n' :: gap))
  | comment {text gap : List Char} (htext : IsComment 0 text) (h : IsGap gap) :
      IsGap ('/' :: '*' :: (text ++ gap))

theorem IsComment.ne_nil {inner : Nat} {text : List Char} (h : IsComment inner text) :
    text ≠ [] := by
  cases h <;> exact List.cons_ne_nil _ _

/-- Inside a comment a character that begins no mark is passed over. -/
theorem skipBlank_block {inner : Nat} {c : Char} {cs : List Char}
    (hopen : c = '/' → cs.head? ≠ some '*') (hclose : c = '*' → cs.head? ≠ some '/') :
    skipBlank (.block inner) (c :: cs) = skipBlank (.block inner) cs := by
  rw [skipBlank.eq_def]
  split <;> simp_all

theorem IsComment.skipBlank_append {inner : Nat} {text : List Char} (h : IsComment inner text)
    (rest : List Char) :
    skipBlank (.block inner) (text ++ rest) = skipBlank .between rest := by
  induction h with
  | close => rfl
  | closeInner _ ih => exact ih
  | @openInner inner text _ ih => cases inner <;> exact ih
  | @char inner c text hopen hclose h ih =>
    have hhead : (text ++ rest).head? = text.head? := List.head?_append_of_ne_nil text h.ne_nil
    rw [← hhead] at hopen hclose
    rw [List.cons_append, skipBlank_block hopen hclose, ih]

theorem skipBlank_line {text : List Char} (h : '\n' ∉ text) (rest : List Char) :
    skipBlank .line (text ++ '\n' :: rest) = skipBlank .between rest := by
  induction text with
  | nil => rfl
  | cons c text ih =>
    obtain ⟨hfirst, hlater⟩ := not_or.mp (mt List.mem_cons.mpr h)
    exact (if_neg (Ne.symm hfirst)).trans (ih hlater)

theorem IsGap.skipBlank_append {gap : List Char} (h : IsGap gap) (rest : List Char) :
    skipBlank .between (gap ++ rest) = skipBlank .between rest := by
  induction h with
  | nil => rfl
  | @blank c gap hblank _ ih =>
    have hslash : c ≠ '/' := by
      rintro rfl
      revert hblank
      decide
    rw [List.cons_append, skipBlank_cons hslash, if_pos hblank, ih]
  | @line text gap hline _ ih =>
    have htext : '/' :: '/' :: (text ++ '\n' :: gap) ++ rest =
        '/' :: '/' :: (text ++ '\n' :: (gap ++ rest)) := by simp
    rw [htext]
    exact (skipBlank_line hline _).trans ih
  | @comment text gap hcomment _ ih =>
    have htext : '/' :: '*' :: (text ++ gap) ++ rest = '/' :: '*' :: (text ++ (gap ++ rest)) := by
      simp
    rw [htext]
    exact (hcomment.skipBlank_append _).trans ih

/-- Gaps are passed over. -/
theorem IsGap.blank_append {gap : List Char} (h : IsGap gap) (rest : List Char) :
    Reader.blank (gap ++ rest) = Reader.blank rest := by
  rw [Reader.blank, Reader.blank, h.skipBlank_append]

theorem IsGap.blank_eq {gap : List Char} (h : IsGap gap) : Reader.blank gap = .ok ((), []) := by
  have happend := h.blank_append []
  rwa [List.append_nil] at happend

/-- Nothing of a gap is to be seen. -/
theorem IsGap.not_seen {gap : List Char} (h : IsGap gap) : ∀ c ∈ gap.head?, ¬ Seen c := by
  cases h with
  | nil => nofun
  | blank hblank _ =>
    rintro c ⟨⟩ hseen
    exact Bool.eq_false_iff.mp hseen.1 hblank
  | line _ _ =>
    rintro c ⟨⟩ hseen
    exact hseen.2 rfl
  | comment _ _ =>
    rintro c ⟨⟩ hseen
    exact hseen.2 rfl

/-- A single blank. -/
theorem IsGap.space : IsGap [' '] := .blank (by decide) .nil

namespace Reader

variable {α β σ : Type} {cs rest after : List Char}

/-! ## What blanks leave -/

theorem skipBlank_head? (state : BlankState) (cs : List Char) :
    ∀ after, skipBlank state cs = .ok after → ∀ c ∈ after.head?, Seen c := by
  fun_induction skipBlank state cs <;> intro after h
  all_goals first | solve_by_elim | cases h
  · nofun
  · next hblank hslash =>
    rintro d ⟨⟩
    exact ⟨by simpa using hblank, hslash⟩
  · nofun

/-- Behind blanks and comments there is nothing, or something to see. -/
theorem seen_of_blank (h : blank cs = .ok ((), after)) : ∀ c ∈ after.head?, Seen c := by
  rw [blank] at h
  cases hskip : skipBlank .between cs with
  | error fault =>
    rw [hskip] at h
    cases h
  | ok skipped =>
    rw [hskip] at h
    cases h
    exact skipBlank_head? _ _ _ hskip

theorem blank_idem (h : blank cs = .ok ((), after)) : blank after = .ok ((), after) := by
  cases after with
  | nil => rfl
  | cons c more => exact (seen_of_blank h c rfl).blank more

/-- A comma is taken with what is blank around it. -/
theorem comma_of_blank (h : blank cs = .ok ((), ',' :: rest))
    (hrest : blank rest = .ok ((), after)) :
    comma cs = .ok (true, after) := by
  rw [comma, bind_ok h, bind_ok (accept_cons ',' rest), bind_ok hrest]
  rfl

/-- Where something else is to be seen behind the blanks, no comma is taken. -/
theorem comma_of_blank_ne {c : Char} (h : blank cs = .ok ((), c :: rest)) (hc : c ≠ ',') :
    comma cs = .ok (false, c :: rest) := by
  rw [comma, bind_ok h, bind_ok (accept_of_ne hc rest), bind_ok (blank_idem h)]
  rfl

/-! ## What follows a value -/

/-- A value may end here: behind a gap comes one of the marks, or nothing. -/
def Follows (rest : List Char) : Prop :=
  ∃ after, blank rest = .ok ((), after) ∧ ∀ c ∈ after.head?, c ∈ enders

/-- No value ends here: behind the gap, if it has an end, there is something else than
the marks that may follow a value. -/
def Stuck (cs : List Char) : Prop :=
  ∀ after, blank cs = .ok ((), after) → ∃ c more, after = c :: more ∧ c ∉ enders

theorem seen_of_mem_enders : ∀ c ∈ enders, Seen c := by
  have hall : enders.all (fun c => decide (Seen c)) = true := by decide
  simpa [List.all_eq_true] using hall

theorem follows_cons {c : Char} (h : c ∈ enders) (rest : List Char) : Follows (c :: rest) :=
  ⟨c :: rest, (seen_of_mem_enders c h).blank rest, by rintro d ⟨⟩; exact h⟩

theorem Follows.append {gap : List Char} (hgap : IsGap gap) (h : Follows rest) :
    Follows (gap ++ rest) := by
  obtain ⟨after, hblank, hafter⟩ := h
  exact ⟨after, (hgap.blank_append rest).trans hblank, hafter⟩

/-- A value may end in front of a gap at the end of a text. -/
theorem follows_gap {gap : List Char} (h : IsGap gap) : Follows gap := ⟨[], h.blank_eq, nofun⟩

theorem mem_stops_of_isBlank {c : Char} (h : isBlank c = true) : c ∈ stops := by
  have hcode : ∀ {n : Nat}, c.toNat = n → c = Char.ofNat n :=
    fun heq => heq ▸ (Char.ofNat_toNat c).symm
  simp only [isBlank, Bool.or_eq_true, decide_eq_true_eq] at h
  rcases h with ((((((((((rfl | rfl) | rfl) | rfl) | hn) | hn) | hn) | hn) | hn) | hn) | hn)
  all_goals try rw [hcode hn]
  all_goals decide

theorem Follows.ends (h : Follows rest) : Ends rest := by
  obtain ⟨after, hblank, hafter⟩ := h
  rintro c hc
  cases rest with
  | nil => cases hc
  | cons d rest =>
    obtain rfl : d = c := Option.some.inj hc
    by_cases hseen : Seen d
    · rw [hseen.blank rest] at hblank
      cases hblank
      exact List.mem_append_left _ (hafter d rfl)
    · rcases not_and_or.mp hseen with hd | hd
      · exact mem_stops_of_isBlank (by simpa using hd)
      · rw [not_not.mp hd]
        decide

theorem stuck_cons {c : Char} (hseen : Seen c) (hc : c ∉ enders) (rest : List Char) :
    Stuck (c :: rest) := by
  intro after h
  rw [hseen.blank rest] at h
  cases h
  exact ⟨c, rest, rfl, hc⟩

theorem Stuck.append {gap : List Char} (hgap : IsGap gap) (h : Stuck rest) :
    Stuck (gap ++ rest) :=
  fun after hblank => h after ((hgap.blank_append rest).symm.trans hblank)

/-- A text begins like a value: with something to see other than the marks that may
follow one. -/
def Starts (cs : List Char) : Prop := ∃ c more, cs = c :: more ∧ Seen c ∧ c ∉ enders

theorem starts_cons {c : Char} (h : c ∉ stops) (rest : List Char) : Starts (c :: rest) := by
  refine ⟨c, rest, rfl, ⟨?_, ?_⟩, fun hc => h (List.mem_append_left _ hc)⟩
  · exact Bool.eq_false_iff.mpr fun hblank => h (mem_stops_of_isBlank hblank)
  · rintro rfl
    exact h (by decide)

theorem Starts.append (h : Starts cs) (rest : List Char) : Starts (cs ++ rest) := by
  obtain ⟨c, more, rfl, hc⟩ := h
  exact ⟨c, more ++ rest, rfl, hc⟩

theorem Starts.blank (h : Starts cs) : blank cs = .ok ((), cs) := by
  obtain ⟨c, more, rfl, hseen, -⟩ := h
  exact hseen.blank more

theorem Starts.stuck (h : Starts cs) : Stuck cs := by
  obtain ⟨c, more, rfl, hseen, hc⟩ := h
  exact stuck_cons hseen hc more

/-! ## Taking a text -/

/-- Wherever a value may end behind a text, the reader takes the text up to the gap
behind it and has read what `post` tells. Unless that is `sure`, it may also fail or
stop where no value ends. -/
def Takes (sure : Prop) (r : Reader α) (text : List Char) (post : α → Prop) : Prop :=
  ∀ rest, Follows rest →
    (∃ a cs, r (text ++ rest) = .ok (a, cs) ∧ blank cs = blank rest ∧ post a) ∨
      ¬ sure ∧ ∀ a cs, r (text ++ rest) = .ok (a, cs) → Stuck cs

variable {sure : Prop} {r : Reader α} {text : List Char} {post : α → Prop}

theorem Takes.mono {sure' : Prop} {post' : α → Prop} (h : Takes sure r text post)
    (hsure : sure' → sure) (hpost : ∀ a, post a → post' a) : Takes sure' r text post' := by
  intro rest hrest
  rcases h rest hrest with ⟨a, cs, hread, hblank, ha⟩ | ⟨hnot, hstuck⟩
  · exact .inl ⟨a, cs, hread, hblank, hpost a ha⟩
  · exact .inr ⟨mt hsure hnot, hstuck⟩

theorem Takes.map {β : Type} {post' : β → Prop} {f : α → β} (h : Takes sure r text post)
    (hpost : ∀ a, post a → post' (f a)) : Takes sure (r >>= fun a => pure (f a)) text post' := by
  intro rest hrest
  rcases h rest hrest with ⟨a, cs, hread, hblank, ha⟩ | ⟨hnot, hstuck⟩
  · exact .inl ⟨f a, cs, bind_ok hread, hblank, hpost a ha⟩
  · refine .inr ⟨hnot, fun b cs hread => ?_⟩
    obtain ⟨a, mid, hread, hpure⟩ := bind_eq_ok.mp hread
    cases hpure
    exact hstuck a cs hread

/-! ## Items -/

variable {close f : Char} {item : σ → Reader σ} {fuel : List Char} {mayFollow : Bool} {s : σ}

/-- The closing mark ends the items. -/
theorem itemsWith_close (h : blank cs = .ok ((), close :: after)) :
    itemsWith close item (f :: fuel) mayFollow s cs = .ok (s, close :: after) := by
  have hpeek : peek? (close :: after) = .ok (some close, close :: after) := rfl
  rw [itemsWith, bind_ok h, bind_ok hpeek, if_pos rfl]
  rfl

/-- Anything else is read as an item, if one may follow. -/
theorem itemsWith_cons {c : Char} (h : blank cs = .ok ((), c :: after)) (hc : c ≠ close) :
    itemsWith close item (f :: fuel) mayFollow s cs =
      if mayFollow then
        (item s >>= fun s => comma >>= fun found => itemsWith close item fuel found s) (c :: after)
      else .error .malformed := by
  have hpeek : peek? (c :: after) = .ok (some c, c :: after) := rfl
  rw [itemsWith, bind_ok h, bind_ok hpeek, if_neg (by simpa using hc)]
  cases mayFollow <;> rfl

/-- Where no value ends, neither a comma nor the closing mark follows an item. -/
theorem itemsWith_stuck (h : Stuck cs) (hclose : close ∈ enders) (fuel : List Char) (s : σ) :
    ∃ fault, (comma >>= fun found => itemsWith close item fuel found s) cs = .error fault := by
  cases hblank : blank cs with
  | error fault => exact ⟨fault, bind_error (bind_error hblank)⟩
  | ok r =>
    obtain ⟨⟨⟩, after⟩ := r
    obtain ⟨c, more, rfl, hc⟩ := h after hblank
    have hcomma : c ≠ ',' := fun heq => hc (heq ▸ by decide)
    have hother : c ≠ close := fun heq => hc (heq ▸ hclose)
    refine ⟨.malformed, ?_⟩
    rw [bind_ok (comma_of_blank_ne hblank hcomma)]
    cases fuel with
    | nil => rfl
    | cons f fuel => rw [itemsWith_cons (blank_idem hblank) hother, if_neg (by decide)]

/-- An item that the reader takes is followed by what follows it in the text. -/
theorem itemsWith_takes {v : List Char} (hv : Starts v) (hclose : close ∈ enders)
    {post : σ → Prop} (htakes : Takes sure (item s) v post) (hrest : Follows rest)
    (hcs : blank cs = .ok ((), v ++ rest)) (f : Char) (fuel : List Char) :
    (∃ s' cs', itemsWith close item (f :: fuel) true s cs =
        (comma >>= fun found => itemsWith close item fuel found s') cs' ∧
        blank cs' = blank rest ∧ post s') ∨
      ¬ sure ∧ ∃ fault, itemsWith close item (f :: fuel) true s cs = .error fault := by
  obtain ⟨c, more, hhead, -, hc⟩ := hv.append rest
  have hother : c ≠ close := fun heq => hc (heq ▸ hclose)
  rw [hhead] at hcs
  rw [itemsWith_cons hcs hother, if_pos rfl, ← hhead]
  rcases htakes rest hrest with ⟨s', cs', hread, hblank, hpost⟩ | ⟨hnot, hstuck⟩
  · exact .inl ⟨s', cs', bind_ok hread, hblank, hpost⟩
  · refine .inr ⟨hnot, ?_⟩
    cases hread : item s (v ++ rest) with
    | error fault => exact ⟨fault, bind_error hread⟩
    | ok r =>
      obtain ⟨s', cs'⟩ := r
      obtain ⟨fault, hfault⟩ : ∃ fault,
          (comma >>= fun found => itemsWith close item fuel found s') cs' = .error fault :=
        itemsWith_stuck (hstuck s' cs' hread) hclose fuel s'
      exact ⟨fault, (bind_ok hread).trans hfault⟩

end Reader

/-! ## Sequences -/

/-- Items between commas, each between two gaps. There may be a comma behind the last. -/
inductive Sequence : List (List Char) → List Char → Prop
  | nil {gap : List Char} (hgap : IsGap gap) : Sequence [] gap
  | last {before item behind : List Char} (hbefore : IsGap before) (hbehind : IsGap behind) :
      Sequence [item] (before ++ (item ++ behind))
  | cons {before item behind : List Char} {items : List (List Char)} {text : List Char}
      (hbefore : IsGap before) (hbehind : IsGap behind) (h : Sequence items text) :
      Sequence (item :: items) (before ++ (item ++ (behind ++ ',' :: text)))

namespace Sequence

variable {vs : List (List Char)} {body : List Char}

theorem length_le (h : Sequence vs body) (hvs : ∀ v ∈ vs, Starts v) :
    vs.length ≤ body.length := by
  have hpos : ∀ {v : List Char}, Starts v → 0 < v.length := by
    rintro _ ⟨c, more, rfl, -⟩
    exact Nat.zero_lt_succ _
  induction h with
  | nil _ => exact Nat.zero_le _
  | @last before v behind _ _ =>
    have := hpos (hvs v List.mem_cons_self)
    simp
    omega
  | @cons before v behind vs body _ _ _ ih =>
    have := ih fun other hother => hvs other (List.mem_cons_of_mem _ hother)
    simp
    omega

/-- The first item of a sequence stands between two gaps, in front of a comma or of what
closes the sequence. -/
theorem exists_first {v : List Char} (h : Sequence (v :: vs) body) (close : Char)
    (rest : List Char) :
    ∃ before behind mark more, IsGap before ∧ IsGap behind ∧ (mark = ',' ∨ mark = close) ∧
      body ++ close :: rest = before ++ (v ++ (behind ++ mark :: more)) := by
  cases h with
  | @last before _ behind hbefore hbehind =>
    exact ⟨before, behind, close, rest, hbefore, hbehind, .inr rfl, by simp⟩
  | @cons before _ behind _ body hbefore hbehind _ =>
    exact ⟨before, behind, ',', body ++ close :: rest, hbefore, hbehind, .inl rfl, by simp⟩

/-- A sequence begins with none of the marks that may follow a value. -/
theorem head?_ne (h : Sequence vs body) (hvs : ∀ v ∈ vs, Starts v) (close : Char)
    (hclose : close ∈ enders) : ∀ c ∈ body.head?, c ≠ close := by
  rintro c hc rfl
  have hseen := seen_of_mem_enders c hclose
  cases vs with
  | nil =>
    obtain ⟨hgap⟩ := h
    exact hgap.not_seen c hc hseen
  | cons v vs =>
    obtain ⟨before, behind, mark, more, hbefore, -, -, htext⟩ := h.exists_first c []
    obtain ⟨d, item, rfl, -, hd⟩ := hvs v List.mem_cons_self
    obtain ⟨body, rfl⟩ := List.head?_eq_some_iff.mp hc
    cases before with
    | nil =>
      obtain ⟨rfl, -⟩ := List.cons.inj htext
      exact hd hclose
    | cons g before =>
      obtain ⟨rfl, -⟩ := List.cons.inj htext
      exact hbefore.not_seen c rfl hseen

/-- In front of a sequence, and of what closes it, there is only a gap. -/
theorem blank_append (h : Sequence vs body) (hvs : ∀ v ∈ vs, Starts v) {close : Char}
    (hclose : close ∈ enders) (rest : List Char) :
    ∃ after, blank (body ++ close :: rest) = .ok ((), after) := by
  cases vs with
  | nil =>
    obtain ⟨hgap⟩ := h
    exact ⟨_, (hgap.blank_append _).trans ((seen_of_mem_enders close hclose).blank rest)⟩
  | cons v vs =>
    obtain ⟨before, behind, mark, more, hbefore, -, -, htext⟩ := h.exists_first close rest
    rw [htext]
    exact ⟨_, (hbefore.blank_append _).trans ((hvs v List.mem_cons_self).append _).blank⟩

end Sequence

namespace Reader

variable {σ : Type} {close : Char} {item : σ → Reader σ} {sure : Prop}
  {Inv : List (List Char) → σ → Prop} {vs : List (List Char)} {body : List Char}

theorem itemsWith_sequence (hclose : close ∈ enders) (hcomma : close ≠ ',')
    (hstep : ∀ v vs s, Inv (v :: vs) s → Takes sure (item s) v (Inv vs))
    (hbody : Sequence vs body) (rest : List Char) :
    (∀ v ∈ vs, Starts v) → ∀ fuel cs s, vs.length < fuel.length → Inv vs s →
      blank cs = blank (body ++ close :: rest) →
      (∃ s', itemsWith close item fuel true s cs = .ok (s', close :: rest) ∧ Inv [] s') ∨
        ¬ sure ∧ ∃ fault, itemsWith close item fuel true s cs = .error fault := by
  have hend : blank (close :: rest) = .ok ((), close :: rest) :=
    (seen_of_mem_enders close hclose).blank rest
  -- the text is known up to the gap in front: the comma of one item has passed over
  -- that of the next
  induction hbody with
  | nil hgap =>
    intro _ fuel cs s hfuel hs hcs
    obtain ⟨f, fuel, rfl⟩ := List.exists_cons_of_length_pos (Nat.zero_lt_of_lt hfuel)
    rw [hgap.blank_append, hend] at hcs
    exact .inl ⟨s, itemsWith_close hcs, hs⟩
  | @last before v behind hbefore hbehind =>
    intro hvs fuel cs s hfuel hs hcs
    obtain ⟨f, fuel, rfl⟩ := List.exists_cons_of_length_pos (Nat.zero_lt_of_lt hfuel)
    have hv := hvs v List.mem_cons_self
    rw [List.append_assoc, List.append_assoc, hbefore.blank_append, (hv.append _).blank] at hcs
    rcases itemsWith_takes hv hclose (hstep v [] s hs) (follows_cons hclose rest |>.append hbehind)
      hcs f fuel with ⟨s', cs', hitem, hcs', hs'⟩ | hfails
    · rw [hbehind.blank_append, hend] at hcs'
      obtain ⟨f', fuel, rfl⟩ := List.exists_cons_of_length_pos
        (Nat.lt_of_succ_lt_succ hfuel : 0 < fuel.length)
      refine .inl ⟨s', ?_, hs'⟩
      rw [hitem, bind_ok (comma_of_blank_ne hcs' hcomma), itemsWith_close hend]
    · exact .inr hfails
  | @cons before v behind vs body hbefore hbehind hbody ih =>
    intro hvs fuel cs s hfuel hs hcs
    obtain ⟨f, fuel, rfl⟩ := List.exists_cons_of_length_pos (Nat.zero_lt_of_lt hfuel)
    obtain ⟨hv, hvs⟩ := List.forall_mem_cons.mp hvs
    have htext : before ++ (v ++ (behind ++ ',' :: body)) ++ close :: rest =
        before ++ (v ++ (behind ++ ',' :: (body ++ close :: rest))) := by simp
    rw [htext, hbefore.blank_append, (hv.append _).blank] at hcs
    have hfollows : Follows (',' :: (body ++ close :: rest)) := follows_cons (by decide) _
    rcases itemsWith_takes hv hclose (hstep v vs s hs) (hfollows.append hbehind) hcs f fuel with
      ⟨s', cs', hitem, hcs', hs'⟩ | hfails
    · obtain ⟨after, hafter⟩ := hbody.blank_append hvs hclose rest
      have hmark : blank (',' :: (body ++ close :: rest)) =
          .ok ((), ',' :: (body ++ close :: rest)) :=
        Seen.blank (by decide) _
      rw [hbehind.blank_append, hmark] at hcs'
      rw [hitem, bind_ok (comma_of_blank hcs' hafter)]
      exact ih hvs fuel after s' (Nat.lt_of_succ_lt_succ hfuel) hs'
        ((blank_idem hafter).trans hafter.symm)
    · exact .inr hfails

/-- **A sequence is read item by item**: if each item is taken as the invariant asks and
leads on to it, the whole sequence is, up to the closing mark. -/
theorem items_sequence (hclose : close ∈ enders) (hcomma : close ≠ ',')
    (hstep : ∀ v vs s, Inv (v :: vs) s → Takes sure (item s) v (Inv vs))
    (hbody : Sequence vs body) (hvs : ∀ v ∈ vs, Starts v) {s : σ} (hs : Inv vs s)
    (rest : List Char) :
    (∃ s', items close item s (body ++ close :: rest) = .ok (s', close :: rest) ∧ Inv [] s') ∨
      ¬ sure ∧ ∃ fault, items close item s (body ++ close :: rest) = .error fault := by
  refine itemsWith_sequence hclose hcomma hstep hbody rest hvs _ _ s ?_ hs rfl
  have := hbody.length_le hvs
  simp
  omega

/-- A sequence of which each item is taken, whatever comes before it, is read. -/
theorem items_each (hclose : close ∈ enders) (hcomma : close ≠ ',')
    (hitem : ∀ s, ∀ v ∈ vs, Takes sure (item s) v fun _ => True) (hbody : Sequence vs body)
    (hvs : ∀ v ∈ vs, Starts v) (s : σ) (rest : List Char) :
    (∃ s', items close item s (body ++ close :: rest) = .ok (s', close :: rest)) ∨
      ¬ sure ∧ ∃ fault, items close item s (body ++ close :: rest) = .error fault := by
  let Inv : List (List Char) → σ → Prop := fun vs _ =>
    ∀ s, ∀ v ∈ vs, Takes sure (item s) v fun _ => True
  have hstep : ∀ v vs s, Inv (v :: vs) s → Takes sure (item s) v (Inv vs) :=
    fun v vs s hvs => (hvs s v List.mem_cons_self).mono id
      fun _ _ s w hw => hvs s w (List.mem_cons_of_mem v hw)
  have hstart : Inv vs s := hitem
  rcases items_sequence hclose hcomma hstep hbody hvs hstart rest with ⟨s', hs', -⟩ | hfails
  · exact .inl ⟨s', hs'⟩
  · exact .inr hfails

end Reader

end PlantGrammar.Ron
