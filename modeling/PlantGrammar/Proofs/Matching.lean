import Mathlib.Data.Finset.Card
import Mathlib.Order.Interval.Finset.Nat
import PlantGrammar.Proofs.Brackets

/-!
# Marks without a partner

Which marks stay without a partner can be read off the depth alone: a closing
mark has none iff nothing is open before it, and an opening mark has none iff
what follows it never closes its group. So the positions noted by
`Bracket.strays` are those of the closing marks without a partner, and the depth
at the end counts the opening marks without one.
-/

namespace PlantGrammar.Bracket

variable {marks : List Bracket} {i j k : Nat}

/-- The mark at `i` has no partner on either side. -/
def Unpaired (marks : List Bracket) (i : Nat) : Prop :=
  ∀ j, ¬ Paired marks i j ∧ ¬ Paired marks j i

/-- Partners are marks of the sequence. -/
theorem Paired.lt_length (h : Paired marks j k) : j < marks.length ∧ k < marks.length :=
  ⟨(List.getElem?_eq_some_iff.mp h.2.1).1, (List.getElem?_eq_some_iff.mp h.2.2.1).1⟩

instance (marks : List Bracket) (i : Nat) : Decidable (Unpaired marks i) :=
  decidable_of_iff (∀ j < marks.length, ¬ Paired marks i j ∧ ¬ Paired marks j i) <| by
    constructor
    · intro h j
      exact ⟨fun hij => (h j hij.lt_length.2).1 hij, fun hji => (h j hji.lt_length.1).2 hji⟩
    · exact fun h j _ => h j

/-- Whether two marks are partners is decided by what stands up to the second. -/
theorem paired_take_iff : Paired (marks.take i) j k ↔ Paired marks j k ∧ k < i := by
  constructor
  · rintro ⟨hjk, hopen, hclose, hbetween⟩
    have hki : k < i := by
      have hk := (List.getElem?_eq_some_iff.mp hclose).1
      rw [List.length_take] at hk
      omega
    rw [List.getElem?_take_of_lt (by omega)] at hopen
    rw [List.getElem?_take_of_lt hki] at hclose
    rw [List.take_take, Nat.min_eq_left (by omega)] at hbetween
    exact ⟨⟨hjk, hopen, hclose, hbetween⟩, hki⟩
  · rintro ⟨⟨hjk, hopen, hclose, hbetween⟩, hki⟩
    refine ⟨hjk, ?_, ?_, ?_⟩
    · rwa [List.getElem?_take_of_lt (by omega)]
    · rwa [List.getElem?_take_of_lt hki]
    · rwa [List.take_take, Nat.min_eq_left (by omega)]

/-- Where something is closed in vain, there is a first mark that does so. -/
theorem exists_first_stray {d : Nat} (h : ¬ ClosesWithin d marks) :
    ∃ s w, marks = s ++ closing :: w ∧ ClosesWithin d s ∧ depth d s = 0 := by
  induction marks generalizing d with
  | nil => exact absurd (closesWithin_nil d) h
  | cons mark marks ih =>
    by_cases hfirst : mark = closing → 0 < d
    · have hrest : ¬ ClosesWithin (step d mark) marks :=
        fun hrest => h (closesWithin_cons.mpr ⟨hfirst, hrest⟩)
      obtain ⟨s, w, rfl, hs, hdepth⟩ := ih hrest
      exact ⟨mark :: s, w, rfl, closesWithin_cons.mpr ⟨hfirst, hs⟩, hdepth⟩
    · obtain ⟨rfl, hd⟩ := Classical.not_imp.mp hfirst
      exact ⟨[], marks, rfl, closesWithin_nil d, by simpa using hd⟩

/-- An opening mark has no partner iff nothing behind it closes its group. -/
theorem unpaired_opening_iff :
    marks[j]? = some opening ∧ Unpaired marks j ↔
      ∃ u v, marks = u ++ opening :: v ∧ u.length = j ∧ ClosesWithin 0 v := by
  constructor
  · rintro ⟨hopen, halone⟩
    obtain ⟨hsplit, hlength⟩ := eq_append_of_getElem? hopen
    refine ⟨_, _, hsplit, hlength, ?_⟩
    by_contra hcloses
    obtain ⟨s, w, hv, hs, hdepth⟩ := exists_first_stray hcloses
    rw [hv] at hsplit
    exact (halone _).1 (paired_iff.mpr
      ⟨_, s, w, hsplit, hs.balanced hdepth, hlength, rfl⟩)
  · rintro ⟨u, v, rfl, rfl, hv⟩
    have hopen : (u ++ opening :: v)[u.length]? = some opening := by simp
    refine ⟨hopen, fun k => ⟨fun hpair => ?_, fun hpair => ?_⟩⟩
    · obtain ⟨u', s, w, hsplit, hs, hlength, -⟩ := paired_iff.mp hpair
      obtain ⟨rfl, hv'⟩ := List.append_inj hsplit hlength.symm
      obtain rfl : v = s ++ closing :: w := (List.cons.inj hv').2
      have hpos := (closesWithin_cons.mp (closesWithin_append.mp hv).2).1 rfl
      rw [hs.depth_eq] at hpos
      exact Nat.lt_irrefl 0 hpos
    · rw [hpair.2.2.1] at hopen
      cases hopen

/-- Behind an opening mark without a partner the depth stays greater than before it. -/
theorem depth_take_lt_of_unpaired (hji : j < i)
    (hj : marks[j]? = some opening ∧ Unpaired marks j) :
    depth 0 (marks.take j) < depth 0 (marks.take i) := by
  obtain ⟨u, v, rfl, rfl, hv⟩ := unpaired_opening_iff.mp hj
  obtain ⟨n, rfl⟩ := Nat.exists_eq_add_of_lt hji
  have hpart : ClosesWithin 0 (v.take n) := hv.of_prefix (List.take_prefix n v)
  have hinside : depth 0 u + 1 ≤ depth (depth 0 u + 1) (v.take n) := hpart.le_depth
  have htake : (u ++ opening :: v).take (u.length + n + 1) = u ++ opening :: v.take n := by
    rw [Nat.add_assoc, List.take_length_add_append, List.take_succ_cons]
  rw [htake, List.take_left, depth_append, depth_cons, step]
  omega

/-- The marks that are open at the end stand at depths that are all different, so
that there are as many of them as the depth counts. -/
theorem depth_eq_card_unpaired (marks : List Bracket) :
    depth 0 marks =
      ((Finset.range marks.length).filter fun j =>
        marks[j]? = some opening ∧ Unpaired marks j).card := by
  rw [← Finset.card_range (depth 0 marks)]
  symm
  refine Finset.card_bij (fun j _ => depth 0 (marks.take j)) ?_ ?_ ?_
  · -- the depth before an open group is less than the depth at the end
    intro j hj
    obtain ⟨hlt, halone⟩ := Finset.mem_filter.mp hj
    have hdepth := depth_take_lt_of_unpaired (Finset.mem_range.mp hlt) halone
    rwa [List.take_length, ← Finset.mem_range] at hdepth
  · -- of two open groups the inner one stands deeper, so no depth is counted twice
    intro j hj j' hj' hdepth
    have halone := (Finset.mem_filter.mp hj).2
    have halone' := (Finset.mem_filter.mp hj').2
    rcases Nat.lt_trichotomy j j' with hlt | heq | hgt
    · exact absurd hdepth (Nat.ne_of_lt (depth_take_lt_of_unpaired hlt halone))
    · exact heq
    · exact absurd hdepth.symm (Nat.ne_of_lt (depth_take_lt_of_unpaired hgt halone'))
  · intro level hlevel
    obtain ⟨u, v, hsplit, hlevel', hv⟩ := exists_open_group (Finset.mem_range.mp hlevel)
    refine ⟨u.length, Finset.mem_filter.mpr ⟨?_, ?_⟩, ?_⟩
    · rw [hsplit, Finset.mem_range]
      simp
    · exact unpaired_opening_iff.mpr ⟨u, v, hsplit, rfl, hv⟩
    · rw [hsplit, List.take_left, hlevel']

/-- Nothing is open before a position iff every group opened before it is also
closed before it. -/
theorem depth_take_eq_zero_iff :
    depth 0 (marks.take i) = 0 ↔
      ∀ j < i, marks[j]? = some opening → ∃ k < i, Paired marks j k := by
  rw [depth_eq_card_unpaired, Finset.card_eq_zero, Finset.filter_eq_empty_iff]
  constructor
  · intro hnone j hji hopen
    have hj : j ∈ Finset.range (marks.take i).length := by
      have := (List.getElem?_eq_some_iff.mp hopen).1
      rw [Finset.mem_range, List.length_take]
      omega
    have hopen' : (marks.take i)[j]? = some opening := by
      rwa [List.getElem?_take_of_lt hji]
    by_contra hall
    refine hnone hj ⟨hopen', fun k => ⟨fun hpair => ?_, fun hpair => ?_⟩⟩
    · obtain ⟨hpair, hki⟩ := paired_take_iff.mp hpair
      exact hall ⟨k, hki, hpair⟩
    · rw [hpair.2.2.1] at hopen'
      cases hopen'
  · rintro hall j hj ⟨hopen, halone⟩
    have hji : j < i := by
      rw [Finset.mem_range, List.length_take] at hj
      omega
    rw [List.getElem?_take_of_lt hji] at hopen
    obtain ⟨k, hki, hpair⟩ := hall j hji hopen
    exact (halone k).1 (paired_take_iff.mpr ⟨hpair, hki⟩)

/-- A closing mark has no partner iff nothing is open before it. -/
theorem unpaired_closing_iff (hclose : marks[i]? = some closing) :
    Unpaired marks i ↔ depth 0 (marks.take i) = 0 := by
  obtain ⟨hsplit, hlength⟩ := eq_append_of_getElem? hclose
  constructor
  · intro halone
    by_contra hdepth
    -- the innermost open group would be closed here
    obtain ⟨u, v, htake, hu, hv⟩ :=
      exists_open_group (Nat.sub_lt (Nat.pos_of_ne_zero hdepth) Nat.one_pos)
    have hinside : depth (depth 0 u + 1) v = depth 0 u + 1 := by
      have hwhole : depth 0 (marks.take i) = depth (depth 0 u + 1) v := by
        rw [htake, depth_append, depth_cons, step]
      omega
    have hmarks : marks = u ++ opening :: (v ++ closing :: marks.drop (i + 1)) := by
      conv_lhs => rw [hsplit, htake]
      simp
    have hi : u.length + 1 + v.length = i := by
      rw [← hlength, htake]
      simp
      omega
    exact (halone u.length).2
      (paired_iff.mpr ⟨u, v, _, hmarks, hv.balanced hinside, rfl, hi⟩)
  · intro hdepth j
    refine ⟨fun hpair => ?_, fun hpair => ?_⟩
    · rw [hpair.2.1] at hclose
      cases hclose
    · obtain ⟨u, s, w, hmarks, hs, -, hi⟩ := paired_iff.mp hpair
      have htake : marks.take i = u ++ opening :: s := by
        have hfront : u ++ opening :: (s ++ closing :: w)
            = (u ++ opening :: s) ++ closing :: w := by simp
        rw [hmarks, hfront]
        exact List.take_left' (by simp; omega)
      rw [htake, depth_append, depth_cons, hs.depth_eq, step] at hdepth
      omega

/-! ## The positions that are noted -/

theorem strays_append {d p : Nat} {u v : List Bracket} :
    strays d p (u ++ v) = strays d p u ++ strays (depth d u) (p + u.length) v := by
  induction u generalizing d p with
  | nil => rfl
  | cons mark u ih =>
    rw [List.cons_append, strays, strays, List.length_cons, depth_cons,
      show p + (u.length + 1) = p + 1 + u.length by omega]
    split
    · next hstray =>
      obtain ⟨rfl, rfl⟩ := hstray
      rw [ih, List.cons_append]
      rfl
    · rw [ih]

/-- From where positions are counted does not decide which marks are noted. -/
theorem strays_add {k : Nat} {marks : List Bracket} :
    ∀ {d p : Nat}, strays d (p + k) marks = (strays d p marks).map (· + k) := by
  induction marks with
  | nil => exact rfl
  | cons mark marks ih =>
    intro d p
    rw [strays, strays, Nat.add_right_comm]
    split
    · rw [ih, List.map_cons]
    · exact ih

/-- The closing marks that are noted are those before which nothing is open. -/
theorem strays_eq_filter_depth (d : Nat) (marks : List Bracket) :
    strays d 0 marks = (List.range marks.length).filter fun i =>
      marks[i]? = some closing ∧ depth d (marks.take i) = 0 := by
  induction marks using List.reverseRecOn with
  | nil => rfl
  | append_singleton marks mark ih =>
    have hold : ∀ i ∈ List.range marks.length,
        decide ((marks ++ [mark])[i]? = some closing ∧
            depth d ((marks ++ [mark]).take i) = 0) =
          decide (marks[i]? = some closing ∧ depth d (marks.take i) = 0) := by
      intro i hi
      have hlt := List.mem_range.mp hi
      rw [List.getElem?_append_left hlt, List.take_append_of_le_length (Nat.le_of_lt hlt)]
    rw [strays_append, ih, List.length_append, List.length_singleton, List.range_succ,
      List.filter_append, List.filter_congr hold]
    simp [strays, List.filter_cons]

/-- The closing marks that find nothing open are those without a partner. -/
theorem strays_eq_filter (marks : List Bracket) :
    strays 0 0 marks = (List.range marks.length).filter fun i =>
      marks[i]? = some closing ∧ Unpaired marks i := by
  rw [strays_eq_filter_depth]
  refine List.filter_congr fun i _ => ?_
  rw [decide_eq_decide]
  exact and_congr_right fun hclose => (unpaired_closing_iff hclose).symm

end PlantGrammar.Bracket
