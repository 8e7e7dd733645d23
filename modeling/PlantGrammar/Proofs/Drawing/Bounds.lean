import PlantGrammar.Proofs.Drawing.OpenPath
import PlantGrammar.Proofs.Numeric.Order

/-!
# Tight bounding boxes

A span is tight around some coordinates if it holds them all and both its ends are among
them, compared as numbers. Reaching for one more coordinate and joining two spans keep it
so, whichever way round the ends come, and a tight span is known by the coordinates alone.
So the box of a canvas is tight around all that is painted: the order of painting does not
matter to it, and it never shrinks.
-/

namespace PlantGrammar

open Numeric

namespace Span

/-! ## Tight spans -/

/-- The span holds all coordinates and ends at two of them. -/
structure Tight (s : Span) (vs : List Float) : Prop where
  low_le : ∀ v ∈ vs, s.low ≤ v
  le_high : ∀ v ∈ vs, v ≤ s.high
  low_mem : ∃ v ∈ vs, (v == s.low) = true
  high_mem : ∃ v ∈ vs, (v == s.high) = true

variable {s t : Span} {v : Float} {vs ws : List Float}

theorem beq_self {v : Float} (hv : v.isNaN = false) : (v == v) = true :=
  beq_iff.mpr ⟨hv, hv, rfl⟩

theorem Tight.low_le_high (h : s.Tight vs) : s.low ≤ s.high := by
  obtain ⟨v, hv, -⟩ := h.low_mem
  exact le_of_le_of_le (h.low_le v hv) (h.le_high v hv)

theorem Tight.mono (h : s.Tight vs) (hlow : t.low ≤ s.low) (hhigh : s.high ≤ t.high)
    (hlowMem : ∃ v ∈ vs ++ ws, (v == t.low) = true)
    (hhighMem : ∃ v ∈ vs ++ ws, (v == t.high) = true)
    (hws : ∀ w ∈ ws, t.low ≤ w ∧ w ≤ t.high) : t.Tight (vs ++ ws) where
  low_le := List.forall_mem_append.mpr
    ⟨fun v hv => le_of_le_of_le hlow (h.low_le v hv), fun w hw => (hws w hw).1⟩
  le_high := List.forall_mem_append.mpr
    ⟨fun v hv => le_of_le_of_le (h.le_high v hv) hhigh, fun w hw => (hws w hw).2⟩
  low_mem := hlowMem
  high_mem := hhighMem

theorem tight_single (hv : v.isNaN = false) : (⟨v, v⟩ : Span).Tight [v] := by
  constructor <;> simp [beq_self hv, le_self hv]

/-- Ends that are put in order were in order, or equal as numbers. -/
theorem Tight.between (h : s.Tight vs) : (Span.between s.low s.high).Tight vs := by
  rw [Span.between]
  split
  · exact h
  · next hnot =>
    obtain ⟨hlow, hhigh, -⟩ := le_iff.mp h.low_le_high
    have hback : s.high ≤ s.low := le_of_not_lt hlow hhigh hnot
    exact ⟨fun v hv => le_of_le_of_le hback (h.low_le v hv),
      fun v hv => le_of_le_of_le (h.le_high v hv) hback, h.high_mem, h.low_mem⟩

/-- The span that reaches one more coordinate. No coordinate lies beyond both ends, so one
of them moves at most. -/
theorem Tight.reach (h : s.Tight vs) (hv : v.isNaN = false) : (s.reach v).Tight (vs ++ [v]) := by
  obtain ⟨hlow, hhigh, -⟩ := le_iff.mp h.low_le_high
  obtain ⟨l, hl, hlEq⟩ := h.low_mem
  obtain ⟨u, hu, huEq⟩ := h.high_mem
  have hlMem : ∃ w ∈ vs ++ [v], (w == s.low) = true := ⟨l, List.mem_append_left _ hl, hlEq⟩
  have huMem : ∃ w ∈ vs ++ [v], (w == s.high) = true := ⟨u, List.mem_append_left _ hu, huEq⟩
  have hvMem : ∃ w ∈ vs ++ [v], (w == v) = true :=
    ⟨v, List.mem_append_right _ List.mem_cons_self, beq_self hv⟩
  rw [Span.reach]
  split
  · next habove =>
    have hup := le_of_lt habove
    exact h.mono (le_self hlow) hup hlMem hvMem
      (List.forall_mem_singleton.mpr ⟨le_of_le_of_le h.low_le_high hup, le_self hv⟩)
  · next hnotAbove =>
    have hunder := le_of_not_lt hhigh hv hnotAbove
    split
    · next hbelow =>
      have hdown := le_of_lt hbelow
      exact h.mono hdown (le_self hhigh) hvMem huMem
        (List.forall_mem_singleton.mpr ⟨le_self hv, hunder⟩)
    · next hnotBelow =>
      have hover := le_of_not_lt hv hlow hnotBelow
      exact h.mono (le_self hlow) (le_self hhigh) hlMem huMem
        (List.forall_mem_singleton.mpr ⟨hover, hunder⟩)

theorem Tight.foldl_reach (h : s.Tight vs) (hws : ∀ w ∈ ws, w.isNaN = false) :
    (ws.foldl Span.reach s).Tight (vs ++ ws) := by
  induction ws generalizing s vs with
  | nil => rwa [List.append_nil]
  | cons w ws ih =>
    obtain ⟨hw, hws⟩ := List.forall_mem_cons.mp hws
    have hnext := ih (h.reach hw) hws
    rwa [List.append_assoc, List.singleton_append] at hnext

/-- The span of some coordinates is tight around them. -/
theorem tight_cover (hv : v.isNaN = false) (hws : ∀ w ∈ ws, w.isNaN = false) :
    (cover v ws).Tight (v :: ws) :=
  ((tight_single hv).foldl_reach hws).between

/-! ## Joins -/

theorem least_cases {a b : Float} (ha : a.isNaN = false) (hb : b.isNaN = false) :
    least a b ≤ a ∧ least a b ≤ b ∧ (least a b = a ∨ least a b = b) := by
  rw [least, if_neg (Bool.eq_false_iff.mp ha)]
  split
  · next hlt => exact ⟨le_of_lt hlt, le_self hb, .inr rfl⟩
  · next hnot => exact ⟨le_self ha, le_of_not_lt hb ha hnot, .inl rfl⟩

theorem greatest_cases {a b : Float} (ha : a.isNaN = false) (hb : b.isNaN = false) :
    a ≤ greatest a b ∧ b ≤ greatest a b ∧ (greatest a b = a ∨ greatest a b = b) := by
  rw [greatest, if_neg (Bool.eq_false_iff.mp ha)]
  split
  · next hlt => exact ⟨le_of_lt hlt, le_self hb, .inr rfl⟩
  · next hnot => exact ⟨le_self ha, le_of_not_lt ha hb hnot, .inl rfl⟩

/-- The span that covers two is tight around the coordinates of both. -/
theorem Tight.join (h : s.Tight vs) (h' : t.Tight ws) : (s.join t).Tight (vs ++ ws) := by
  obtain ⟨hlow, hhigh, -⟩ := le_iff.mp h.low_le_high
  obtain ⟨hlow', hhigh', -⟩ := le_iff.mp h'.low_le_high
  obtain ⟨hleft, hright, hleast⟩ := least_cases hlow hlow'
  obtain ⟨hleft', hright', hgreatest⟩ := greatest_cases hhigh hhigh'
  obtain ⟨l, hl, hlEq⟩ := h.low_mem
  obtain ⟨u, hu, huEq⟩ := h.high_mem
  obtain ⟨l', hl', hlEq'⟩ := h'.low_mem
  obtain ⟨u', hu', huEq'⟩ := h'.high_mem
  refine Tight.between (s := ⟨least s.low t.low, greatest s.high t.high⟩)
    (h.mono hleft hleft' ?_ ?_ fun w hw =>
      ⟨le_of_le_of_le hright (h'.low_le w hw), le_of_le_of_le (h'.le_high w hw) hright'⟩)
  · rcases hleast with heq | heq
    · exact ⟨l, List.mem_append_left _ hl, (congrArg (_ == ·) heq).trans hlEq⟩
    · exact ⟨l', List.mem_append_right _ hl', (congrArg (_ == ·) heq).trans hlEq'⟩
  · rcases hgreatest with heq | heq
    · exact ⟨u, List.mem_append_left _ hu, (congrArg (_ == ·) heq).trans huEq⟩
    · exact ⟨u', List.mem_append_right _ hu', (congrArg (_ == ·) heq).trans huEq'⟩

/-! ## What a tight span is known by -/

/-- A tight span around more coordinates covers one around fewer. -/
theorem Tight.le_of_subset (h : s.Tight vs) (h' : t.Tight ws) (hsub : vs ⊆ ws) :
    t.low ≤ s.low ∧ s.high ≤ t.high := by
  constructor
  · obtain ⟨l, hl, heq⟩ := h.low_mem
    obtain ⟨hnum, hlow, hrank⟩ := beq_iff.mp heq
    exact le_of_le_of_le (h'.low_le l (hsub hl)) (le_iff.mpr ⟨hnum, hlow, Int.le_of_eq hrank⟩)
  · obtain ⟨u, hu, heq⟩ := h.high_mem
    obtain ⟨hnum, hhigh, hrank⟩ := beq_iff.mp heq
    exact le_of_le_of_le (le_iff.mpr ⟨hhigh, hnum, Int.le_of_eq hrank.symm⟩)
      (h'.le_high u (hsub hu))

end Span

namespace Point

/-- Both coordinates are numbers. -/
def IsNumeric (p : Point Float) : Prop := p.x.isNaN = false ∧ p.y.isNaN = false

instance (p : Point Float) : Decidable p.IsNumeric := inferInstanceAs (Decidable (_ ∧ _))

end Point

namespace Box

/-! ## Boxes -/

/-- The box holds all points, and each of its sides goes through one of them. -/
structure Tight (b : Box) (ps : List (Point Float)) : Prop where
  x : b.x.Tight (ps.map (·.x))
  y : b.y.Tight (ps.map (·.y))

/-- The sides of `a` are those of `b`, or farther out. -/
structure Covers (a b : Box) : Prop where
  left : a.x.low ≤ b.x.low
  right : b.x.high ≤ a.x.high
  top : a.y.low ≤ b.y.low
  bottom : b.y.high ≤ a.y.high

variable {a b : Box} {o : Outline Float} {outlines : List (Outline Float)}
  {ps qs : List (Point Float)}

theorem Tight.join (h : a.Tight ps) (h' : b.Tight qs) : (a.join b).Tight (ps ++ qs) where
  x := by
    rw [List.map_append]
    exact h.x.join h'.x
  y := by
    rw [List.map_append]
    exact h.y.join h'.y

theorem Tight.covers_of_subset (h : a.Tight ps) (h' : b.Tight qs) (hsub : ps ⊆ qs) :
    b.Covers a := by
  obtain ⟨hleft, hright⟩ := h.x.le_of_subset h'.x (List.map_subset _ hsub)
  obtain ⟨htop, hbottom⟩ := h.y.le_of_subset h'.y (List.map_subset _ hsub)
  exact ⟨hleft, hright, htop, hbottom⟩

theorem ofOutline?_eq_none_iff : ofOutline? o = none ↔ o.points = [] := by
  rw [ofOutline?]
  split <;> simp_all

theorem tight_ofOutline? (h : ofOutline? o = some b) (hnum : ∀ p ∈ o.points, p.IsNumeric) :
    b.Tight o.points := by
  rw [ofOutline?] at h
  split at h
  · cases h
  · next p ps hpoints =>
    cases h
    rw [hpoints] at hnum ⊢
    obtain ⟨⟨hx, hy⟩, hps⟩ := List.forall_mem_cons.mp hnum
    exact ⟨Span.tight_cover hx (List.forall_mem_map.mpr fun q hq => (hps q hq).1),
      Span.tight_cover hy (List.forall_mem_map.mpr fun q hq => (hps q hq).2)⟩

/-- Joining the boxes of outlines one after the other keeps the box tight. -/
theorem Tight.foldl_join (h : b.Tight ps)
    (hnum : ∀ o ∈ outlines, ∀ p ∈ o.points, p.IsNumeric) :
    ((outlines.filterMap ofOutline?).foldl Box.join b).Tight
      (ps ++ outlines.flatMap (·.points)) := by
  induction outlines generalizing b ps with
  | nil => rwa [List.flatMap_nil, List.append_nil]
  | cons o outlines ih =>
    obtain ⟨ho, hnum⟩ := List.forall_mem_cons.mp hnum
    rw [List.flatMap_cons, ← List.append_assoc]
    cases hbox : ofOutline? o with
    | none =>
      rw [List.filterMap_cons_none hbox, ofOutline?_eq_none_iff.mp hbox, List.append_nil]
      exact ih h hnum
    | some first =>
      rw [List.filterMap_cons_some hbox, List.foldl_cons]
      exact ih (h.join (tight_ofOutline? hbox ho)) hnum

/-- There is a box unless there are no points at all. -/
theorem ofOutlines?_eq_none_iff :
    ofOutlines? outlines = none ↔ outlines.flatMap (·.points) = [] := by
  rw [List.flatMap_eq_nil_iff]
  have hempty : outlines.filterMap ofOutline? = [] ↔ ∀ o ∈ outlines, o.points = [] := by
    rw [List.filterMap_eq_nil_iff]
    exact forall₂_congr fun o _ => ofOutline?_eq_none_iff
  rw [← hempty, ofOutlines?]
  split <;> simp_all

/-- **The box of some outlines** is tight around their points. -/
theorem tight_ofOutlines? (h : ofOutlines? outlines = some b)
    (hnum : ∀ o ∈ outlines, ∀ p ∈ o.points, p.IsNumeric) :
    b.Tight (outlines.flatMap (·.points)) := by
  induction outlines with
  | nil => cases h
  | cons o outlines ih =>
    obtain ⟨ho, hnum⟩ := List.forall_mem_cons.mp hnum
    rw [List.flatMap_cons]
    cases hbox : ofOutline? o with
    | none =>
      rw [ofOutlines?, List.filterMap_cons_none hbox] at h
      rw [ofOutline?_eq_none_iff.mp hbox]
      exact ih h hnum
    | some first =>
      rw [ofOutlines?, List.filterMap_cons_some hbox] at h
      cases h
      exact (tight_ofOutline? hbox ho).foldl_join hnum

end Box

/-! ## Canvases -/

namespace Command

/-- A branch or a leaf. -/
def Paints {α : Type} : Command α → Prop
  | .branch _ _ _ => True
  | .leaf _ _ _ _ => True
  | _ => False

end Command

namespace Outline

variable {α : Type} [Scalar α]

theorem ofPoints_ne_nil {points : List (Point α)} (h : points ≠ []) :
    (ofPoints points).points ≠ [] := by
  rw [ofPoints]
  split
  · split <;> simp [h]
  · exact h

theorem branch_ne_nil (width length : α) : (branch width length).points ≠ [] :=
  ofPoints_ne_nil (List.cons_ne_nil _ _)

theorem leaf_ne_nil (width length : α) : (leaf width length).points ≠ [] :=
  ofPoints_ne_nil (List.cons_ne_nil _ _)

theorem transform_ne_nil {o : Outline α} (h : o.points ≠ []) (m : Transform α) :
    (o.transform m).points ≠ [] :=
  ofPoints_ne_nil (List.map_eq_nil_iff.not.mpr h)

end Outline

namespace Canvas

/-- The vertices of all that is painted. -/
def vertices (c : Canvas Float) : List (Point Float) := c.shapes.toList.flatMap (·.outline.points)

/-- All vertices have numbers for coordinates. -/
def IsNumeric (c : Canvas Float) : Prop := ∀ p ∈ c.vertices, p.IsNumeric

instance (c : Canvas Float) : Decidable c.IsNumeric :=
  inferInstanceAs (Decidable (∀ p ∈ c.vertices, p.IsNumeric))

variable {c : Canvas Float}

/-- A command adds vertices if it paints, and only then. -/
theorem exists_vertices_draw (c : Canvas Float) (command : Command Float) :
    ∃ added, (c.draw command).vertices = c.vertices ++ added ∧
      (added = [] ↔ ¬ command.Paints) := by
  have hadded : (c.draw command).vertices =
      c.vertices ++ (command.shape? c.transform).toList.flatMap (·.outline.points) := by
    rw [vertices, shapes_draw, List.flatMap_append]
    rfl
  refine ⟨_, hadded, ?_⟩
  cases command with
  | branch width length color =>
    have hpoints := Outline.transform_ne_nil (Outline.branch_ne_nil width length) c.transform
    simpa [Command.shape?, Command.Paints] using hpoints
  | leaf width length color alpha =>
    have hpoints := Outline.transform_ne_nil (Outline.leaf_ne_nil width length) c.transform
    simpa [Command.shape?, Command.Paints] using hpoints
  | rotate radians => simp [Command.shape?, Command.Paints]
  | push => simp [Command.shape?, Command.Paints]
  | pop => simp [Command.shape?, Command.Paints]

theorem exists_vertices_replay (commands : List (Command Float)) (c : Canvas Float) :
    ∃ added, (c.replay commands).vertices = c.vertices ++ added ∧
      (added = [] ↔ ∀ command ∈ commands, ¬ command.Paints) := by
  induction commands generalizing c with
  | nil => exact ⟨[], (List.append_nil _).symm, by simp⟩
  | cons command commands ih =>
    obtain ⟨first, hfirst, hpaints⟩ := exists_vertices_draw c command
    obtain ⟨later, hlater, hrest⟩ := ih (c.draw command)
    refine ⟨first ++ later, ?_, ?_⟩
    · rw [replay_cons, hlater, hfirst, List.append_assoc]
    · rw [List.append_eq_nil_iff, hpaints, hrest, List.forall_mem_cons]

theorem bounds?_eq_none_iff : c.bounds? = none ↔ c.vertices = [] := by
  rw [bounds?, Box.ofOutlines?_eq_none_iff, List.flatMap_map]
  rfl

theorem tight_bounds? {box : Box} (h : c.bounds? = some box) (hnum : c.IsNumeric) :
    box.Tight c.vertices := by
  have htight := Box.tight_ofOutlines? h ?_
  · rw [List.flatMap_map] at htight
    exact htight
  · intro o ho p hp
    obtain ⟨shape, hshape, rfl⟩ := List.mem_map.mp ho
    exact hnum p (List.mem_flatMap.mpr ⟨shape, hshape, hp⟩)

/-- More vertices have a box that covers that of fewer. -/
theorem exists_covers_bounds? {d : Canvas Float} (hsub : c.vertices ⊆ d.vertices)
    (hc : c.IsNumeric) (hd : d.IsNumeric) {box : Box} (h : c.bounds? = some box) :
    ∃ wider, d.bounds? = some wider ∧ wider.Covers box := by
  cases hwider : d.bounds? with
  | none =>
    rw [bounds?_eq_none_iff.mp hwider, List.subset_nil, ← bounds?_eq_none_iff, h] at hsub
    cases hsub
  | some wider =>
    exact ⟨wider, rfl, (tight_bounds? h hc).covers_of_subset (tight_bounds? hwider hd) hsub⟩

/-- **The box of a drawing** is tight around all that is painted, and there is one unless
nothing is: it holds every vertex of every shape, and each of its sides goes through a
vertex. So it is the same box, as far as the numbers go, in whatever order the shapes are
painted, and painting more never makes it smaller. -/
theorem bounds?_tight (surface : Surface Float) (commands : List (Command Float))
    (hnum : ((start surface).replay commands).IsNumeric) :
    (((start surface).replay commands).bounds? = none ↔
        ∀ command ∈ commands, ¬ command.Paints) ∧
      (∀ box, ((start surface).replay commands).bounds? = some box →
        box.Tight ((start surface).replay commands).vertices) ∧
      (∀ other : Canvas Float,
        other.shapes.toList.Perm ((start surface).replay commands).shapes.toList →
        Option.Rel (fun a b : Box => a.Covers b ∧ b.Covers a) other.bounds?
          ((start surface).replay commands).bounds?) ∧
      ∀ more, ((start surface).replay (commands ++ more)).IsNumeric →
        ∀ box, ((start surface).replay commands).bounds? = some box →
          ∃ wider, ((start surface).replay (commands ++ more)).bounds? = some wider ∧
            wider.Covers box := by
  let canvas := (start surface).replay commands
  refine ⟨?_, fun box h => tight_bounds? h hnum, fun other hperm => ?_, fun more hmore box h => ?_⟩
  · obtain ⟨added, hadded, hpaints⟩ := exists_vertices_replay commands (start surface)
    rw [bounds?_eq_none_iff, hadded, ← hpaints]
    rfl
  · have hvertices : other.vertices.Perm canvas.vertices := hperm.flatMap_right _
    have hother : other.IsNumeric := fun p hp => hnum p (hvertices.subset hp)
    cases hbox : canvas.bounds? with
    | none =>
      rw [bounds?_eq_none_iff] at hbox
      rw [hbox, List.perm_nil, ← bounds?_eq_none_iff] at hvertices
      rw [hvertices]
      exact .none
    | some box =>
      obtain ⟨same, hsame, hcovers⟩ := exists_covers_bounds? hvertices.symm.subset hnum hother hbox
      have hback : box.Covers same :=
        (tight_bounds? hsame hother).covers_of_subset (tight_bounds? hbox hnum) hvertices.subset
      rw [hsame]
      exact .some ⟨hcovers, hback⟩
  · rw [replay_append] at hmore ⊢
    obtain ⟨added, hadded, -⟩ := exists_vertices_replay more canvas
    exact exists_covers_bounds? (hadded ▸ List.subset_append_left _ _) hnum hmore h

/-- A stray pop, a branch in a group that is closed again, and a leaf on the other side. -/
def twig : List (Command Float) :=
  [.pop, .push, .branch 1 30 (Color.ofBytes 133 82 28 255), .pop,
    .leaf (-2) 3 (Color.ofBytes 28 133 43 255) 0.75]

/-- A branch that grows downwards. -/
def root : List (Command Float) := [.branch 4 (-50) (Color.ofBytes 133 82 28 255)]

theorem bounds?_tight_twig :
    ((start .standard).replay twig).IsNumeric ∧
      ((start .standard).replay (twig ++ root)).IsNumeric ∧
      ∃ box wider, ((start .standard).replay twig).bounds? = some box ∧
        box.Tight ((start .standard).replay twig).vertices ∧
        ((start .standard).replay (twig ++ root)).bounds? = some wider ∧ wider.Covers box := by
  have htwig : ((start .standard).replay twig).IsNumeric := by decide +kernel
  have hroot : ((start .standard).replay (twig ++ root)).IsNumeric := by decide +kernel
  obtain ⟨hnone, htight, -, hmore⟩ := bounds?_tight .standard twig htwig
  have hsome : ((start .standard).replay twig).bounds? ≠ none := by
    rw [ne_eq, hnone]
    exact fun h => h (.branch 1 30 (Color.ofBytes 133 82 28 255)) (by simp [twig]) trivial
  obtain ⟨box, hbox⟩ := Option.ne_none_iff_exists'.mp hsome
  obtain ⟨wider, hwider, hcovers⟩ := hmore root hroot box hbox
  exact ⟨htwig, hroot, box, wider, hbox, htight box hbox, hwider, hcovers⟩

end Canvas

end PlantGrammar
