import Mathlib.Data.List.Infix

/-!
# Brackets

Words and drawings nest alike: some of their items open a group, some close one
and the rest do neither. This module forgets everything else about an item. It
counts the groups that are open (`Bracket.depth`), says when a sequence never
closes more than is open (`Bracket.ClosesWithin`), finds the closing marks that
close nothing (`Bracket.strays`), and says which opening mark belongs to which
closing mark (`Bracket.Paired`) without any stack.
-/

namespace PlantGrammar

/-- What an item does to the groups around it. -/
inductive Bracket where
  | opening
  | closing
  | plain
deriving DecidableEq, Repr

namespace Bracket

/-! ## Counting open groups -/

/-- How many groups are open after one more mark. With nothing open, a closing
mark closes nothing. -/
def step (depth : Nat) : Bracket → Nat
  | opening => depth + 1
  | closing => depth - 1
  | plain => depth

/-- How many groups are open after some marks. -/
def depth (start : Nat) (marks : List Bracket) : Nat := marks.foldl step start

@[simp] theorem depth_nil (d : Nat) : depth d [] = d := rfl

@[simp] theorem depth_cons (d : Nat) (mark : Bracket) (marks : List Bracket) :
    depth d (mark :: marks) = depth (step d mark) marks := rfl

@[simp] theorem depth_append (d : Nat) (u v : List Bracket) :
    depth d (u ++ v) = depth (depth d u) v := List.foldl_append

/-- The positions of the closing marks that find nothing open; the first mark has
the given position. -/
def strays : (depth position : Nat) → List Bracket → List Nat
  | _, _, [] => []
  | depth, position, mark :: marks =>
    if mark = closing ∧ depth = 0 then position :: strays 0 (position + 1) marks
    else strays (step depth mark) (position + 1) marks

/-- No part from the front on closes more than is open already and it opens. -/
def ClosesWithin (depth : Nat) (marks : List Bracket) : Prop :=
  ∀ part, part <+: marks → part.count closing ≤ depth + part.count opening

@[simp] theorem closesWithin_nil (d : Nat) : ClosesWithin d [] := by
  intro part hpart
  rw [List.prefix_nil.mp hpart]
  simp

/-- The first mark must find something to close, and the others what it leaves. -/
theorem closesWithin_cons {d : Nat} {mark : Bracket} {marks : List Bracket} :
    ClosesWithin d (mark :: marks) ↔
      (mark = closing → 0 < d) ∧ ClosesWithin (step d mark) marks := by
  constructor
  · intro h
    constructor
    · rintro rfl
      have hone := h [closing] (by simp)
      simp at hone
      omega
    · intro part hpart
      have hcount := h (mark :: part) ((List.prefix_cons_inj mark).mpr hpart)
      cases mark <;> simp [step] at hcount ⊢ <;> omega
  · rintro ⟨hpos, h⟩ part hpart
    rcases List.prefix_cons_iff.mp hpart with rfl | ⟨tail, rfl, htail⟩
    · simp
    · have hcount := h tail htail
      cases mark <;> simp [step] at hpos hcount ⊢ <;> omega

theorem closesWithin_append {d : Nat} {u v : List Bracket} :
    ClosesWithin d (u ++ v) ↔ ClosesWithin d u ∧ ClosesWithin (depth d u) v := by
  induction u generalizing d with
  | nil => simp
  | cons mark u ih => simp [closesWithin_cons, ih, and_assoc]

theorem ClosesWithin.mono {d e : Nat} {marks : List Bracket} (h : ClosesWithin d marks)
    (hde : d ≤ e) : ClosesWithin e marks := by
  intro part hpart
  have hcount := h part hpart
  omega

theorem ClosesWithin.of_prefix {d : Nat} {part marks : List Bracket}
    (h : ClosesWithin d marks) (hpart : part <+: marks) : ClosesWithin d part :=
  fun _ hsub => h _ (hsub.trans hpart)

/-- Where nothing is closed in vain, the depth is the balance of the marks. -/
theorem ClosesWithin.depth_add_count {d : Nat} {marks : List Bracket}
    (h : ClosesWithin d marks) :
    depth d marks + marks.count closing = d + marks.count opening := by
  induction marks generalizing d with
  | nil => rfl
  | cons mark marks ih =>
    obtain ⟨hpos, hrest⟩ := closesWithin_cons.mp h
    have hcount := ih hrest
    cases mark <;> simp [step] at hpos hcount ⊢ <;> omega

/-- Groups that were open before are left alone. -/
theorem ClosesWithin.le_depth {d : Nat} {marks : List Bracket}
    (h : ClosesWithin 0 marks) : d ≤ depth d marks := by
  have hall := h marks List.prefix_rfl
  have hcount := (h.mono (Nat.zero_le d)).depth_add_count
  omega

/-- The converse of `ClosesWithin.le_depth`, for a positive depth: at depth zero a
closing mark leaves the depth alone too. -/
theorem closesWithin_of_le_depth {d : Nat} {marks : List Bracket} (hd : 0 < d) :
    ∀ {e : Nat}, (∀ part, part <+: marks → d ≤ depth (d + e) part) →
      ClosesWithin e marks := by
  induction marks with
  | nil => exact fun _ => closesWithin_nil _
  | cons mark marks ih =>
    intro e h
    have hfirst : mark = closing → 0 < e := by
      rintro rfl
      have hone := h [closing] (by simp)
      simp only [depth_cons, depth_nil, step] at hone
      omega
    refine closesWithin_cons.mpr ⟨hfirst, ih fun part hpart => ?_⟩
    have hmark : d + step e mark = step (d + e) mark := by
      cases mark <;> simp [step] at hfirst ⊢ <;> omega
    rw [hmark]
    exact h (mark :: part) ((List.prefix_cons_inj mark).mpr hpart)

/-- Nothing is closed in vain iff no closing mark finds nothing open. -/
theorem strays_eq_nil_iff {marks : List Bracket} :
    ∀ {d position : Nat}, strays d position marks = [] ↔ ClosesWithin d marks := by
  induction marks with
  | nil => simp [strays]
  | cons mark marks ih =>
    intro d position
    rw [strays, closesWithin_cons]
    by_cases hstray : mark = closing ∧ d = 0
    · simp [hstray]
    · have hfirst : mark = closing → 0 < d := by
        intro hmark
        exact Nat.pos_of_ne_zero fun hd => hstray ⟨hmark, hd⟩
      rw [if_neg hstray, ih, and_iff_right hfirst]

/-- Each group that is open has an opening mark behind which only inner groups
were closed. -/
theorem exists_open_group {marks : List Bracket} :
    ∀ {level : Nat}, level < depth 0 marks →
      ∃ u v, marks = u ++ opening :: v ∧ depth 0 u = level ∧ ClosesWithin 0 v := by
  induction marks using List.reverseRecOn with
  | nil => intro level hlevel; simp at hlevel
  | append_singleton marks mark ih =>
    intro level hlevel
    simp only [depth_append, depth_cons, depth_nil] at hlevel
    by_cases hnew : mark = opening ∧ level = depth 0 marks
    · obtain ⟨rfl, rfl⟩ := hnew
      exact ⟨marks, [], rfl, rfl, closesWithin_nil 0⟩
    · have hold : level < depth 0 marks := by
        cases mark <;> simp [step] at hlevel hnew <;> omega
      obtain ⟨u, v, rfl, rfl, hv⟩ := ih hold
      refine ⟨u, v ++ [mark], by simp, rfl, ?_⟩
      refine closesWithin_append.mpr ⟨hv, closesWithin_cons.mpr ⟨?_, closesWithin_nil _⟩⟩
      rintro rfl
      -- the group is still open after the closing mark, so `v` has one of its own
      have hlow := hv.depth_add_count
      have hhigh := (hv.mono (Nat.zero_le (depth 0 u + 1))).depth_add_count
      simp only [depth_append, depth_cons, step] at hlevel
      omega

/-! ## Partners -/

/-- Everything that is opened is closed, and nothing else. -/
structure Balanced (marks : List Bracket) : Prop where
  closes : ClosesWithin 0 marks
  even : marks.count opening = marks.count closing

theorem Balanced.depth_eq {marks : List Bracket} (h : Balanced marks) (d : Nat) :
    depth d marks = d := by
  have hcount := (h.closes.mono (Nat.zero_le d)).depth_add_count
  have heven := h.even
  omega

/-- A sequence that never closes too much is balanced once its depth is back. -/
theorem ClosesWithin.balanced {d : Nat} {marks : List Bracket} (h : ClosesWithin 0 marks)
    (hdepth : depth d marks = d) : Balanced marks where
  closes := h
  even := by
    have hcount := (h.mono (Nat.zero_le d)).depth_add_count
    omega

/-- A list around the item at one of its positions. -/
theorem eq_append_of_getElem? {β : Type} {l : List β} {i : Nat} {a : β}
    (h : l[i]? = some a) :
    l = l.take i ++ a :: l.drop (i + 1) ∧ (l.take i).length = i := by
  obtain ⟨hlt, hitem⟩ := List.getElem?_eq_some_iff.mp h
  refine ⟨?_, List.length_take_of_le (Nat.le_of_lt hlt)⟩
  rw [← hitem, ← List.drop_eq_getElem_cons hlt, List.take_append_drop]

/-- The mark at `j` opens the group that the mark at `k` closes: what stands
between them is balanced. -/
def Paired (marks : List Bracket) (j k : Nat) : Prop :=
  j < k ∧ marks[j]? = some opening ∧ marks[k]? = some closing ∧
    Balanced ((marks.take k).drop (j + 1))

/-- Position `i` lies inside a group that is opened and closed. -/
def Enclosed (marks : List Bracket) (i : Nat) : Prop :=
  ∃ j k, j < i ∧ i < k ∧ Paired marks j k

instance (d : Nat) (marks : List Bracket) : Decidable (ClosesWithin d marks) :=
  decidable_of_iff (∀ part ∈ marks.inits, part.count closing ≤ d + part.count opening)
    (by simp [ClosesWithin])

instance (marks : List Bracket) : Decidable (Balanced marks) :=
  decidable_of_iff
    (ClosesWithin 0 marks ∧ marks.count opening = marks.count closing)
    ⟨fun h => ⟨h.1, h.2⟩, fun h => ⟨h.closes, h.even⟩⟩

instance (marks : List Bracket) (j k : Nat) : Decidable (Paired marks j k) :=
  inferInstanceAs (Decidable (_ ∧ _))

/-- Partners split the marks into what stands before, between and behind them. -/
theorem paired_iff {marks : List Bracket} {j k : Nat} :
    Paired marks j k ↔ ∃ u s w, marks = u ++ opening :: (s ++ closing :: w) ∧
      Balanced s ∧ u.length = j ∧ u.length + 1 + s.length = k := by
  constructor
  · rintro ⟨hjk, hopen, hclose, hbetween⟩
    obtain ⟨hback, hk⟩ := eq_append_of_getElem? hclose
    have hopen' : (marks.take k)[j]? = some opening := by
      rw [List.getElem?_take_of_lt hjk, hopen]
    obtain ⟨hfront, hj⟩ := eq_append_of_getElem? hopen'
    refine ⟨(marks.take k).take j, (marks.take k).drop (j + 1),
      marks.drop (k + 1), ?_, hbetween, hj, ?_⟩
    · calc marks = marks.take k ++ closing :: marks.drop (k + 1) := hback
        _ = ((marks.take k).take j ++ opening :: (marks.take k).drop (j + 1))
              ++ closing :: marks.drop (k + 1) := by rw [← hfront]
        _ = _ := by rw [List.append_assoc, List.cons_append]
    · rw [hj, List.length_drop, hk]
      omega
  · rintro ⟨u, s, w, rfl, hs, rfl, rfl⟩
    have hfront : u ++ opening :: (s ++ closing :: w)
        = ((u ++ [opening]) ++ s) ++ closing :: w := by simp
    have hlength : u.length + 1 + s.length
        = ((u ++ [opening]) ++ s).length := by
      simp [Nat.add_assoc, Nat.add_comm 1]
    refine ⟨by omega, by simp, ?_, ?_⟩
    · rw [hfront, hlength, List.getElem?_append_right (Nat.le_refl _)]
      simp
    · have hopen : u.length + 1 = (u ++ [opening]).length := by simp
      rw [hfront, hlength, List.take_left, hopen, List.drop_left]
      exact hs

instance (marks : List Bracket) (i : Nat) : Decidable (Enclosed marks i) :=
  decidable_of_iff (∃ j < i, ∃ k < marks.length, i < k ∧ Paired marks j k) <| by
    constructor
    · rintro ⟨j, hji, k, -, hik, hpair⟩
      exact ⟨j, k, hji, hik, hpair⟩
    · rintro ⟨j, k, hji, hik, hpair⟩
      exact ⟨j, hji, k, (List.getElem?_eq_some_iff.mp hpair.2.2.1).1, hik, hpair⟩

/-- A mark that closes nothing encloses nothing, and neither does a group that is
never closed. -/
example : Enclosed [opening, plain, closing] 1 ∧
    ¬ Enclosed [plain, closing, opening, plain, closing, opening, plain] 0 ∧
    ¬ Enclosed [plain, closing, opening, plain, closing, opening, plain] 6 := by decide

theorem enclosed_iff {marks : List Bracket} {i : Nat} :
    Enclosed marks i ↔ ∃ u s w, marks = u ++ opening :: (s ++ closing :: w) ∧
      Balanced s ∧ u.length < i ∧ i < u.length + 1 + s.length := by
  constructor
  · rintro ⟨j, k, hji, hik, hpair⟩
    obtain ⟨u, s, w, hmarks, hs, rfl, rfl⟩ := paired_iff.mp hpair
    exact ⟨u, s, w, hmarks, hs, hji, hik⟩
  · rintro ⟨u, s, w, hmarks, hs, hji, hik⟩
    exact ⟨_, _, hji, hik, paired_iff.mpr ⟨u, s, w, hmarks, hs, rfl, rfl⟩⟩

/-! ## What one more mark encloses -/

theorem Enclosed.append_right {marks : List Bracket} {i : Nat} (h : Enclosed marks i)
    (rest : List Bracket) : Enclosed (marks ++ rest) i := by
  obtain ⟨u, s, w, rfl, hs, hlow, hhigh⟩ := enclosed_iff.mp h
  exact enclosed_iff.mpr ⟨u, s, w ++ rest, by simp, hs, hlow, hhigh⟩

/-- A closing mark encloses what stands behind the innermost open group, if the depth
has come back to what it was there and was never less in between. -/
theorem enclosed_of_return {before after : List Bracket} (hpos : 0 < depth 0 before)
    (hlow : ∀ part, part <+: after → depth 0 before ≤ depth (depth 0 before) part)
    (hback : depth (depth 0 before) after = depth 0 before) :
    Enclosed (before ++ plain :: (after ++ [closing])) before.length := by
  obtain ⟨u, v, rfl, hu, hv⟩ := exists_open_group (Nat.sub_lt hpos Nat.one_pos)
  have hopen : depth 0 (u ++ opening :: v) = depth 0 u + 1 := by omega
  have hinside : depth (depth 0 u + 1) v = depth 0 u + 1 := by
    rwa [depth_append, depth_cons, step] at hopen
  have hcloses : ClosesWithin 0 (v ++ plain :: after) := by
    have hafter : ClosesWithin 0 after := closesWithin_of_le_depth (e := 0) hpos hlow
    refine closesWithin_append.mpr ⟨hv, closesWithin_cons.mpr ⟨by simp, ?_⟩⟩
    exact hafter.mono (Nat.zero_le _)
  have hreturn : depth (depth 0 u + 1) (v ++ plain :: after) = depth 0 u + 1 := by
    rw [depth_append, hinside, depth_cons, step, ← hopen, hback]
  refine enclosed_iff.mpr ⟨u, v ++ plain :: after, [], by simp,
    hcloses.balanced hreturn, by simp, ?_⟩
  simp
  omega

/-- Behind a mark that lies in no closed group the depth never falls below what it
was there. -/
theorem le_depth_of_not_enclosed {before after : List Bracket}
    (h : ¬ Enclosed (before ++ plain :: after) before.length) :
    ∀ part, part <+: after → depth 0 before ≤ depth (depth 0 before) part := by
  induction after using List.reverseRecOn with
  | nil =>
    intro part hpart
    rw [List.prefix_nil.mp hpart, depth_nil]
  | append_singleton after mark ih =>
    have hbefore : ¬ Enclosed (before ++ plain :: after) before.length := by
      intro henclosed
      exact h (by simpa using henclosed.append_right [mark])
    intro part hpart
    rcases List.prefix_concat_iff.mp hpart with rfl | hpart
    · by_contra hfall
      simp only [depth_append, depth_cons, depth_nil, Nat.not_le] at hfall
      have hlevel := ih hbefore after List.prefix_rfl
      -- only a closing mark lowers the depth, and only by one
      have hmark : mark = closing ∧ depth (depth 0 before) after = depth 0 before
          ∧ 0 < depth 0 before := by
        cases mark <;> simp [step] at hfall ⊢ <;> omega
      obtain ⟨rfl, hback, hpos⟩ := hmark
      exact h (enclosed_of_return hpos (ih hbefore) hback)
    · exact ih hbefore part hpart

/-- Where a balanced part behind an opening mark ends, the depth is at most what it
was anywhere inside. -/
theorem depth_le_of_balanced {u s before after : List Bracket} (hs : Balanced s)
    (hsplit : before ++ plain :: after = u ++ opening :: s)
    (hlow : u.length < before.length) :
    depth 0 (before ++ plain :: after) = depth 0 u + 1 ∧ depth 0 u < depth 0 before := by
  have hwhole : u ++ [opening] <+: before ++ plain :: after := by
    rw [hsplit]
    simp
  have hfront : u ++ [opening] <+: before := by
    refine List.prefix_of_prefix_length_le hwhole (List.prefix_append _ _) ?_
    simp
    omega
  obtain ⟨v, rfl⟩ := hfront
  have hinner : s = v ++ plain :: after := by simpa using hsplit.symm
  have hv : ClosesWithin 0 v := hs.closes.of_prefix (hinner ▸ List.prefix_append _ _)
  constructor
  · rw [hsplit, depth_append, depth_cons, hs.depth_eq, step]
  · have hinside : depth 0 u + 1 ≤ depth (depth 0 u + 1) v := hv.le_depth
    simp only [depth_append, depth_cons, depth_nil, step]
    omega

/-- A new mark encloses exactly those positions whose depth it undercuts, beside
those that were enclosed before. -/
theorem enclosed_concat_split (before after : List Bracket) (mark : Bracket) :
    Enclosed (before ++ plain :: (after ++ [mark])) before.length ↔
      Enclosed (before ++ plain :: after) before.length ∨
        depth 0 (before ++ plain :: (after ++ [mark])) < depth 0 before := by
  have hwhole : before ++ plain :: (after ++ [mark]) =
      (before ++ plain :: after) ++ [mark] := by
    simp
  rw [hwhole]
  constructor
  · intro h
    obtain ⟨u, s, w, hmarks, hs, hlow, hhigh⟩ := enclosed_iff.mp h
    -- the group ends either at the new mark or before it
    induction w using List.reverseRecOn with
    | nil =>
      right
      have hlast : (before ++ plain :: after) ++ [mark]
          = (u ++ opening :: s) ++ [closing] := by simpa using hmarks
      obtain ⟨hsplit, rfl⟩ := List.append_singleton_inj.mp hlast
      obtain ⟨hdepth, hinside⟩ := depth_le_of_balanced hs hsplit hlow
      rw [depth_append, hdepth]
      exact hinside
    | append_singleton w last ih =>
      left
      have hlast : (before ++ plain :: after) ++ [mark]
          = (u ++ opening :: (s ++ closing :: w)) ++ [last] := by simpa using hmarks
      obtain ⟨hmarks, -⟩ := List.append_singleton_inj.mp hlast
      exact enclosed_iff.mpr ⟨u, s, w, hmarks, hs, hlow, hhigh⟩
  · rintro (h | hfall)
    · exact h.append_right [mark]
    · by_contra henclosed
      rw [← hwhole] at henclosed hfall
      have hlevel := le_depth_of_not_enclosed henclosed _ List.prefix_rfl
      simp only [depth_append, depth_cons, step] at hfall hlevel
      omega

/-! ## By position -/

variable {marks : List Bracket} {i : Nat}

/-- `le_depth_of_not_enclosed`, at the end of the marks. -/
theorem depth_take_le (hi : marks[i]? = some plain) (h : ¬ Enclosed marks i) :
    depth 0 (marks.take i) ≤ depth 0 marks := by
  obtain ⟨hsplit, hlength⟩ := eq_append_of_getElem? hi
  rw [hsplit] at h
  have hlow : depth 0 (marks.take i) ≤
      depth (depth 0 (marks.take i)) (marks.drop (i + 1)) :=
    le_depth_of_not_enclosed (by rwa [hlength]) _ List.prefix_rfl
  calc depth 0 (marks.take i)
      ≤ depth 0 (marks.take i ++ plain :: marks.drop (i + 1)) := by
        rwa [depth_append, depth_cons, step]
    _ = depth 0 marks := by rw [← hsplit]

theorem enclosed_concat_iff (hi : marks[i]? = some plain) (mark : Bracket) :
    Enclosed (marks ++ [mark]) i ↔
      Enclosed marks i ∨ depth 0 (marks ++ [mark]) < depth 0 (marks.take i) := by
  obtain ⟨hsplit, hlength⟩ := eq_append_of_getElem? hi
  have hconcat : marks ++ [mark]
      = marks.take i ++ plain :: (marks.drop (i + 1) ++ [mark]) := by
    conv_lhs => rw [hsplit]
    simp
  have hiff := enclosed_concat_split (marks.take i) (marks.drop (i + 1)) mark
  rwa [hlength, ← hconcat, ← hsplit] at hiff

/-- Nothing stands behind the last mark that could enclose it. -/
theorem not_enclosed_last (marks : List Bracket) (mark : Bracket) :
    ¬ Enclosed (marks ++ [mark]) marks.length := by
  intro h
  obtain ⟨u, s, w, hmarks, -, -, hhigh⟩ := enclosed_iff.mp h
  have hlength := congrArg List.length hmarks
  simp at hlength
  omega

end Bracket

end PlantGrammar
