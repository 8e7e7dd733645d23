import PlantGrammar.Drawing.Svg
import PlantGrammar.Proofs.Color
import PlantGrammar.Proofs.Numeric.Text

/-!
# The elements of a picture

A picture is a text, and what a reader of the text takes for its elements are the
tags in it: what stands between an opening bracket and the next closing one. Nothing
that is written inside a tag holds a bracket of its own, so the tags are the ones
that were written, and those of paths are the elements of the shapes.
-/

namespace PlantGrammar.Svg

open Numeric

/-! ## Tags -/

/-- The tags of a text: what stands from each opening bracket to the next closing
one. -/
def tags : List Char → List (List Char)
  | [] => []
  | c :: cs => if c = '<' then ('<' :: (cs.takeWhile (· ≠ '>') ++ ['>'])) :: tags cs else tags cs

/-- The elements of paths in a text, in order. -/
def paths (text : List Char) : List (List Char) := (tags text).filter ("<path".toList.isPrefixOf ·)

/-- A text without a bracket of a tag. -/
def Untagged (cs : List Char) : Prop := ∀ c ∈ cs, c ≠ '<' ∧ c ≠ '>'

instance (cs : List Char) : Decidable (Untagged cs) := List.decidableBAll _ cs

theorem untagged_append {cs ds : List Char} : Untagged (cs ++ ds) ↔ Untagged cs ∧ Untagged ds :=
  List.forall_mem_append

theorem untagged_cons {c : Char} {cs : List Char} :
    Untagged (c :: cs) ↔ (c ≠ '<' ∧ c ≠ '>') ∧ Untagged cs := List.forall_mem_cons

/-- A text without brackets adds no tag. -/
theorem tags_append {cs : List Char} (h : Untagged cs) (rest : List Char) :
    tags (cs ++ rest) = tags rest := by
  induction cs with
  | nil => rfl
  | cons c cs ih =>
    obtain ⟨⟨hopen, -⟩, hcs⟩ := untagged_cons.mp h
    rw [List.cons_append, tags, if_neg hopen, ih hcs]

/-- A tag is taken whole. -/
theorem tags_tag {inner : List Char} (h : Untagged inner) (rest : List Char) :
    tags ('<' :: (inner ++ '>' :: rest)) = ('<' :: (inner ++ ['>'])) :: tags rest := by
  have htaken : (inner ++ '>' :: rest).takeWhile (· ≠ '>') = inner := by
    rw [List.takeWhile_append_of_pos fun c hc => decide_eq_true (h c hc).2,
      List.takeWhile_cons_of_neg (by decide), List.append_nil]
  have hclose : tags ('>' :: rest) = tags rest := if_neg (by decide)
  rw [tags, if_pos rfl, htaken, tags_append h, hclose]

/-! ## Attributes -/

theorem untagged_of_inNumber {cs : List Char} (h : ∀ c ∈ cs, InNumber c) : Untagged cs := by
  intro c hc
  constructor
  · rintro rfl
    exact absurd (h _ hc) (by decide)
  · rintro rfl
    exact absurd (h _ hc) (by decide)

theorem untagged_floatChars (x : Float) : Untagged (floatChars x) :=
  untagged_of_inNumber (Encoding.inNumber_of_mem_chars _)

theorem untagged_narrowChars (x : Float) : Untagged (narrowChars x) :=
  untagged_of_inNumber (Encoding.inNumber_of_mem_chars _)

theorem untagged_hexChars (c : Color) : Untagged c.hexChars := by
  have hdigit : ∀ d < 16, d.digitChar ≠ '<' ∧ d.digitChar ≠ '>' := by decide
  exact Color.forall_mem_hexChars (by decide) hdigit c

theorem untagged_field {name : String} {value : List Char} (hname : Untagged name.toList)
    (hvalue : Untagged value) : Untagged (field name value) := by
  simp only [field, untagged_cons, untagged_append]
  exact ⟨by decide, hname, by decide, by decide, hvalue, by decide⟩

theorem untagged_vertex {letter : Char} (h : letter ≠ '<' ∧ letter ≠ '>') (p : Point Float) :
    Untagged (vertex letter p) := by
  simp only [vertex, untagged_cons, untagged_append]
  exact ⟨h, untagged_narrowChars _, by decide, untagged_narrowChars _, by decide⟩

theorem untagged_pathData (o : Outline Float) : Untagged (pathData o) := by
  rw [pathData]
  split
  · decide
  · next p ps _ =>
    rw [untagged_append, untagged_append]
    refine ⟨⟨untagged_vertex (by decide) p, fun c hc => ?_⟩, by decide⟩
    obtain ⟨q, -, hq⟩ := List.mem_flatMap.mp hc
    exact untagged_vertex (by decide) q c hq

theorem untagged_opacity (alpha : Float) : Untagged (opacity alpha) := by
  rw [opacity]
  split
  · exact untagged_field (by decide) (untagged_floatChars alpha)
  · exact nofun

/-! ## Elements -/

/-- The element of a shape is one tag, with the name of a path. -/
theorem path_eq (s : Shape Float) :
    ∃ inner, Untagged inner ∧ path s = "<path".toList ++ (inner ++ ['>']) := by
  have hclose : "/>".toList = ['/', '>'] := by simp
  refine ⟨field "d" (pathData s.outline) ++ field "fill" s.color.hexChars ++ opacity s.alpha ++
    field "stroke" "none".toList ++ ['/'], ?_, ?_⟩
  · simp only [untagged_append]
    exact ⟨⟨⟨⟨untagged_field (by decide) (untagged_pathData _),
      untagged_field (by decide) (untagged_hexChars _)⟩, untagged_opacity _⟩,
      untagged_field (by decide) (by decide)⟩, by decide⟩
  · unfold path
    rw [hclose]
    simp only [List.append_assoc, List.cons_append, List.nil_append]

/-- The opening tag of a picture has another name. -/
theorem heading_eq (surface : Surface Float) :
    ∃ inner, Untagged inner ∧ heading surface = '<' :: 's' :: inner := by
  have hname : "<svg".toList = ['<', 's', 'v', 'g'] := by simp
  have hbox : Untagged
      ("0 0 ".toList ++ floatChars surface.width ++ ' ' :: floatChars surface.height) := by
    simp only [untagged_append, untagged_cons]
    exact ⟨⟨by decide, untagged_floatChars _⟩, by decide, untagged_floatChars _⟩
  refine ⟨['v', 'g'] ++ field "height" (floatChars surface.height) ++
    field "viewBox" ("0 0 ".toList ++ floatChars surface.width ++ ' ' :: floatChars surface.height) ++
    field "width" (floatChars surface.width) ++
    field "xmlns" "http://www.w3.org/2000/svg".toList, ?_, ?_⟩
  · simp only [untagged_append]
    exact ⟨⟨⟨⟨by decide, untagged_field (by decide) (untagged_floatChars _)⟩,
      untagged_field (by decide) hbox⟩, untagged_field (by decide) (untagged_floatChars _)⟩,
      untagged_field (by decide) (by decide)⟩
  · unfold heading
    rw [hname]
    simp only [List.append_assoc, List.cons_append, List.nil_append]

/-- The element of a shape is taken, and the reader goes on behind it. -/
theorem paths_path (s : Shape Float) (rest : List Char) :
    paths (path s ++ rest) = path s :: paths rest := by
  obtain ⟨inner, hinner, hpath⟩ := path_eq s
  have hname : "<path".toList = '<' :: "path".toList := by simp
  have hall : Untagged ("path".toList ++ inner) := untagged_append.mpr ⟨by decide, hinner⟩
  have htag : tags (path s ++ rest) = path s :: tags rest := by
    rw [hpath, hname]
    simpa only [List.cons_append, List.append_assoc, List.nil_append] using tags_tag hall rest
  have hpaths : "<path".toList.isPrefixOf (path s) = true :=
    List.isPrefixOf_iff_prefix.mpr ⟨_, hpath.symm⟩
  rw [paths, htag, List.filter_cons_of_pos hpaths, paths]

/-- A tag with another name is passed over. -/
theorem paths_other {c : Char} {inner : List Char} (hc : c ≠ 'p') (hmark : c ≠ '<' ∧ c ≠ '>')
    (hinner : Untagged inner) (rest : List Char) :
    paths ('<' :: c :: (inner ++ '>' :: rest)) = paths rest := by
  have hother : "<path".toList.isPrefixOf ('<' :: c :: (inner ++ ['>'])) = false := by
    have hname : "<path".toList = ['<', 'p', 'a', 't', 'h'] := by simp
    simp [hname, List.isPrefixOf, hc.symm]
  have htag := tags_tag (untagged_cons.mpr ⟨hmark, hinner⟩) rest
  rw [List.cons_append, List.cons_append] at htag
  rw [paths, htag, List.filter_cons_of_neg (by rw [hother]; decide), paths]

/-- Elements on lines of their own are taken one after the other. -/
theorem paths_flatMap (shapes : List (Shape Float)) (rest : List Char) :
    paths (shapes.flatMap (fun shape => '\n' :: path shape) ++ rest) =
      shapes.map path ++ paths rest := by
  induction shapes with
  | nil => rfl
  | cons s shapes ih =>
    have hline : ∀ cs, paths ('\n' :: cs) = paths cs := fun _ => rfl
    rw [List.flatMap_cons, List.append_assoc, List.cons_append, hline, paths_path, ih]
    rfl

/-- The elements of a picture are those of its shapes, in the order of painting. -/
theorem paths_document (shapes : List (Shape Float)) (surface : Surface Float) :
    paths (document shapes surface) = shapes.map path := by
  obtain ⟨inner, hinner, hheading⟩ := heading_eq surface
  cases shapes with
  | nil =>
    have hclose : "/>".toList = ['/', '>'] := by simp
    have hslash : Untagged (inner ++ ['/']) := untagged_append.mpr ⟨hinner, by decide⟩
    have hempty := paths_other (by decide) (by decide : 's' ≠ '<' ∧ 's' ≠ '>') hslash []
    have hnone : paths [] = [] := rfl
    rw [hnone] at hempty
    rw [document, hheading, hclose, List.map_nil]
    simpa only [List.cons_append, List.append_assoc, List.nil_append] using hempty
  | cons s shapes =>
    have hclose : "\n</svg>".toList = ['\n', '<', '/', 's', 'v', 'g', '>'] := by simp
    have hend : paths "\n</svg>".toList = [] := by
      rw [hclose]
      exact paths_other (by decide) (by decide) (by decide : Untagged ['s', 'v', 'g']) []
    have hopening := paths_other (by decide) (by decide : 's' ≠ '<' ∧ 's' ≠ '>') hinner
      ((s :: shapes).flatMap (fun shape => '\n' :: path shape) ++ "\n</svg>".toList)
    rw [paths_flatMap, hend, List.append_nil] at hopening
    have htext : document (s :: shapes) surface = heading surface ++
        '>' :: ((s :: shapes).flatMap fun shape => '\n' :: path shape) ++ "\n</svg>".toList := rfl
    rw [htext, hheading]
    simpa only [List.cons_append, List.append_assoc] using hopening

end PlantGrammar.Svg
