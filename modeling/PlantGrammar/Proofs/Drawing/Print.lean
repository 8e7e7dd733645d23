import PlantGrammar.Drawing.Svg
import PlantGrammar.Proofs.Color
import PlantGrammar.Proofs.Numeric.Text

/-!
# What the text of a picture tells

Two pictures have one text only if they show the same: surfaces of one size and, shape by
shape, the same colour, the same opacity and the same vertices, all as far as they are
written. Each part of the text ends at a mark that does not occur in it, so the parts of
equal texts are equal one after the other, in front of whatever follows.
-/

namespace PlantGrammar

/-- The bytes of a colour without its opacity. -/
def Color.opaqueBytes (c : Color) : List UInt8 := [byte c.red, byte c.green, byte c.blue]

namespace Svg

open Numeric

/-- What the element of a shape shows. -/
structure Print where
  color : List UInt8
  /-- The text of the opacity, if there is any. -/
  opacity : Option (List Char)
  /-- The texts of the coordinates, point by point. -/
  vertices : List (List Char × List Char)

/-- The texts of the coordinates of a point. -/
def printPoint (p : Point Float) : List Char × List Char := (narrowChars p.x, narrowChars p.y)

/-- What is shown of a shape. Its opacity is shown where it is below one. -/
def printShape (s : Shape Float) : Print where
  color := s.color.opaqueBytes
  opacity := if s.alpha < 1 then some (floatChars s.alpha) else none
  vertices := s.outline.points.map printPoint

/-! ## Parts that end at a mark -/

/-- What stands in front of the first mark, and what stands behind it. -/
theorem append_mark_inj {m : Char} {u v r s : List Char} (hu : m ∉ u) (hv : m ∉ v) :
    u ++ m :: r = v ++ m :: s ↔ u = v ∧ r = s := by
  induction u generalizing v with
  | nil =>
    cases v with
    | nil => simp
    | cons d v =>
      have hd : m ≠ d := fun h => hv (h ▸ List.mem_cons_self)
      simp [hd]
  | cons c u ih =>
    have hc : c ≠ m := fun h => hu (h ▸ List.mem_cons_self)
    cases v with
    | nil => simp [hc]
    | cons d v =>
      have htails := ih (fun h => hu (List.mem_cons_of_mem c h))
        (fun h => hv (List.mem_cons_of_mem d h))
      simp [htails, and_assoc]

theorem not_mem_of_inNumber {m : Char} {cs : List Char} (hm : ¬ InNumber m)
    (h : ∀ c ∈ cs, InNumber c) : m ∉ cs := fun hmem => hm (h m hmem)

theorem not_mem_floatChars {m : Char} (hm : ¬ InNumber m) (x : Float) : m ∉ floatChars x :=
  not_mem_of_inNumber hm (Encoding.inNumber_of_mem_chars _)

theorem not_mem_narrowChars {m : Char} (hm : ¬ InNumber m) (x : Float) : m ∉ narrowChars x :=
  not_mem_of_inNumber hm (Encoding.inNumber_of_mem_chars _)

/-- An attribute ends at its second quotation mark. -/
theorem field_append_inj {name : String} {u v r s : List Char} (hu : '"' ∉ u) (hv : '"' ∉ v) :
    field name u ++ r = field name v ++ s ↔ u = v ∧ r = s := by
  simp only [field, List.cons_append, List.append_assoc, List.nil_append, List.cons.injEq, true_and,
    List.append_cancel_left_eq, append_mark_inj hu hv]

/-! ## Paths -/

theorem vertex_append_inj {letter : Char} {p q : Point Float} {r s : List Char} :
    vertex letter p ++ r = vertex letter q ++ s ↔ printPoint p = printPoint q ∧ r = s := by
  have hcomma : ∀ x, ',' ∉ narrowChars x := not_mem_narrowChars (by decide)
  have hblank : ∀ x, ' ' ∉ narrowChars x := not_mem_narrowChars (by decide)
  simp only [vertex, printPoint, List.cons_append, List.append_assoc, List.nil_append,
    List.cons.injEq, true_and, append_mark_inj (hcomma _) (hcomma _),
    append_mark_inj (hblank _) (hblank _), Prod.mk.injEq, and_assoc]

/-- The further points of a path end at its last letter. -/
theorem vertices_append_inj {ps qs : List (Point Float)} :
    ps.flatMap (vertex 'L') ++ ['z'] = qs.flatMap (vertex 'L') ++ ['z'] ↔
      ps.map printPoint = qs.map printPoint := by
  induction ps generalizing qs with
  | nil =>
    cases qs with
    | nil => simp
    | cons q qs => simp [vertex]
  | cons p ps ih =>
    cases qs with
    | nil => simp [vertex]
    | cons q qs =>
      simp only [List.flatMap_cons, List.append_assoc, vertex_append_inj, ih, List.map_cons,
        List.cons.injEq]

theorem pathData_inj {o o' : Outline Float} :
    pathData o = pathData o' ↔ o.points.map printPoint = o'.points.map printPoint := by
  obtain ⟨ps⟩ := o
  obtain ⟨qs⟩ := o'
  cases ps with
  | nil =>
    cases qs with
    | nil => simp
    | cons q qs => simp [pathData, vertex]
  | cons p ps =>
    cases qs with
    | nil => simp [pathData, vertex]
    | cons q qs =>
      simp only [pathData, List.append_assoc, vertex_append_inj, vertices_append_inj,
        List.map_cons, List.cons.injEq]

theorem not_mem_pathData (o : Outline Float) : '"' ∉ pathData o := by
  have hvertex : ∀ letter ≠ '"', ∀ p, '"' ∉ vertex letter p := by
    intro letter hletter p
    have hnumber : ∀ x, '"' ∉ narrowChars x := not_mem_narrowChars (by decide)
    simp [vertex, hletter.symm, hnumber]
  rw [pathData]
  split
  · decide
  · next p ps _ =>
    simp [hvertex 'M' (by decide), hvertex 'L' (by decide)]

/-! ## Colours -/

theorem hexByte_inj {b b' : UInt8} : Color.hexByte b = Color.hexByte b' ↔ b = b' := by
  refine ⟨fun h => ?_, fun h => h ▸ rfl⟩
  simp only [Color.hexByte, List.cons.injEq, and_true] at h
  have hread := Color.pair?_byte b
  rw [h.1, h.2, Color.pair?_byte b', Option.some.injEq] at hread
  exact (UInt8.toNat_inj.mp hread).symm

theorem hexByte_append_inj {b b' : UInt8} {r s : List Char} :
    Color.hexByte b ++ r = Color.hexByte b' ++ s ↔ b = b' ∧ r = s := by
  rw [← hexByte_inj]
  exact ⟨fun h => List.append_inj h rfl, fun h => by rw [h.1, h.2]⟩

theorem hexChars_inj {c c' : Color} :
    c.hexChars = c'.hexChars ↔ c.opaqueBytes = c'.opaqueBytes := by
  simp only [Color.hexChars, Color.opaqueBytes, List.cons.injEq, true_and, and_true,
    List.append_assoc, hexByte_append_inj, hexByte_inj]

theorem not_mem_hexChars (c : Color) : '"' ∉ c.hexChars := by
  have hdigit : ∀ d < 16, d.digitChar ≠ '"' := by decide
  have hall := Color.forall_mem_hexChars (P := fun d => d ≠ '"') (by decide) hdigit c
  exact fun hmem => hall _ hmem rfl

/-! ## Elements -/

/-- Where there is no opacity another attribute begins with another letter. -/
theorem opacity_append_inj {alpha alpha' : Float} {r s : List Char} :
    opacity alpha ++ (field "stroke" "none".toList ++ r) =
        opacity alpha' ++ (field "stroke" "none".toList ++ s) ↔
      (if alpha < 1 then some (floatChars alpha) else none) =
          (if alpha' < 1 then some (floatChars alpha') else none) ∧ r = s := by
  have hquote : ∀ x, '"' ∉ floatChars x := not_mem_floatChars (by decide)
  have hother : ∀ u v w, field "fill-opacity" u ++ v ≠ field "stroke" "none".toList ++ w := by
    intro u v w
    simp [field]
  unfold opacity
  split <;> split
  · rw [field_append_inj (hquote _) (hquote _), List.append_cancel_left_eq, Option.some.injEq]
  · exact iff_of_false (hother _ _ _) nofun
  · exact iff_of_false (hother _ _ _).symm nofun
  · simp only [List.nil_append, List.append_cancel_left_eq, true_and]

theorem path_append (s : Shape Float) (rest : List Char) :
    path s ++ rest = "<path".toList ++ (field "d" (pathData s.outline) ++
      (field "fill" s.color.hexChars ++ (opacity s.alpha ++
        (field "stroke" "none".toList ++ ("/>".toList ++ rest))))) := by
  unfold path
  simp only [List.append_assoc]

theorem path_append_inj {s s' : Shape Float} {u v : List Char} :
    path s ++ u = path s' ++ v ↔ printShape s = printShape s' ∧ u = v := by
  rw [path_append, path_append, List.append_cancel_left_eq,
    field_append_inj (not_mem_pathData _) (not_mem_pathData _),
    field_append_inj (not_mem_hexChars _) (not_mem_hexChars _), opacity_append_inj,
    List.append_cancel_left_eq, pathData_inj, hexChars_inj]
  simp only [printShape, Print.mk.injEq]
  tauto

/-- The elements of a picture end at its closing tag. -/
theorem paths_append_inj {shapes shapes' : List (Shape Float)} :
    shapes.flatMap (fun s => '\n' :: path s) ++ "\n</svg>".toList =
        shapes'.flatMap (fun s => '\n' :: path s) ++ "\n</svg>".toList ↔
      shapes.map printShape = shapes'.map printShape := by
  have hother : ∀ s u, '\n' :: path s ++ u ≠ "\n</svg>".toList := by
    intro s u
    simp [path_append]
  induction shapes generalizing shapes' with
  | nil =>
    cases shapes' with
    | nil => simp only [List.map_nil]
    | cons s' shapes' =>
      rw [List.flatMap_cons, List.append_assoc]
      exact iff_of_false (hother _ _).symm nofun
  | cons s shapes ih =>
    cases shapes' with
    | nil =>
      rw [List.flatMap_cons, List.append_assoc]
      exact iff_of_false (hother _ _) nofun
    | cons s' shapes' =>
      simp only [List.flatMap_cons, List.cons_append, List.append_assoc, List.cons.injEq, true_and,
        path_append_inj, ih, List.map_cons]

/-! ## Pictures -/

theorem heading_append (S : Surface Float) (rest : List Char) :
    heading S ++ rest = "<svg".toList ++ (field "height" (floatChars S.height) ++
      (field "viewBox" ("0 0 ".toList ++ floatChars S.width ++ ' ' :: floatChars S.height) ++
        (field "width" (floatChars S.width) ++
          (field "xmlns" "http://www.w3.org/2000/svg".toList ++ rest)))) := by
  unfold heading
  simp only [List.append_assoc]

theorem heading_append_inj {S T : Surface Float} {r s : List Char} :
    heading S ++ r = heading T ++ s ↔
      floatChars S.width = floatChars T.width ∧ floatChars S.height = floatChars T.height ∧
        r = s := by
  have hquote : ∀ x, '"' ∉ floatChars x := not_mem_floatChars (by decide)
  have hbox : ∀ w h, '"' ∉ "0 0 ".toList ++ floatChars w ++ ' ' :: floatChars h := by
    intro w h
    simp [hquote]
  rw [heading_append, heading_append, List.append_cancel_left_eq,
    field_append_inj (hquote _) (hquote _), field_append_inj (hbox _ _) (hbox _ _),
    field_append_inj (hquote _) (hquote _), List.append_cancel_left_eq]
  -- the box repeats both sizes
  constructor
  · rintro ⟨hheight, -, hwidth, hrest⟩
    exact ⟨hwidth, hheight, hrest⟩
  · rintro ⟨hwidth, hheight, hrest⟩
    exact ⟨hheight, by rw [hwidth, hheight], hwidth, hrest⟩

/-- What stands behind the opening tag. -/
def body (shapes : List (Shape Float)) : List Char :=
  match shapes with
  | [] => "/>".toList
  | s :: shapes => '>' :: (((s :: shapes).flatMap fun s => '\n' :: path s) ++ "\n</svg>".toList)

theorem document_eq_body (shapes : List (Shape Float)) (S : Surface Float) :
    document shapes S = heading S ++ body shapes := by
  cases shapes with
  | nil => rfl
  | cons s shapes =>
    unfold document body
    rw [List.append_assoc, List.cons_append]

/-- An empty picture is closed at once, another one behind its elements. -/
theorem body_inj {shapes shapes' : List (Shape Float)} :
    body shapes = body shapes' ↔ shapes.map printShape = shapes'.map printShape := by
  cases shapes with
  | nil =>
    cases shapes' with
    | nil => simp only [List.map_nil]
    | cons s' shapes' => exact iff_of_false (by simp [body]) nofun
  | cons s shapes =>
    cases shapes' with
    | nil => exact iff_of_false (by simp [body]) nofun
    | cons s' shapes' => rw [body, body, List.cons_inj_right, paths_append_inj]

/-- **The text of a picture is unambiguous**: two pictures have one text exactly if their
surfaces have one width and one height as they are written, and their shapes show the same
one after the other — as many of them, each with the same bytes of red, green and blue, the
same text of its opacity or no such text, and the same texts of the coordinates of its
points in their order. This holds of all outlines, those without any point too, and of all
numbers, those that are not finite too. -/
theorem document_eq_iff (shapes shapes' : List (Shape Float)) (S T : Surface Float) :
    document shapes S = document shapes' T ↔
      floatChars S.width = floatChars T.width ∧ floatChars S.height = floatChars T.height ∧
        shapes.map printShape = shapes'.map printShape := by
  rw [document_eq_body, document_eq_body, heading_append_inj, body_inj]

end Svg

end PlantGrammar
