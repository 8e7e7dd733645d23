import PlantGrammar.Drawing.Svg
import PlantGrammar.Proofs.Color
import PlantGrammar.Proofs.Numeric.Narrow
import PlantGrammar.Proofs.Numeric.Text

/-!
# The words of a picture

A number that is not finite is written as a word, `NaN` or `inf`. Neither occurs in the
text of a picture whose numbers are finite: nothing else in it holds a capital `N`, and
no `f` in it follows an `n`.
-/

namespace PlantGrammar

open Numeric

/-! ## Texts without words -/

/-- A text that holds neither word, and completes none that begins in front of it. -/
structure Wordless (cs : List Char) : Prop where
  capital : 'N' ∉ cs
  chain : cs.IsChain fun c d => c ≠ 'n' ∨ d ≠ 'f'
  head : cs.head? ≠ some 'f'

instance (cs : List Char) : Decidable (Wordless cs) :=
  decidable_of_iff ('N' ∉ cs ∧ (cs.IsChain fun c d => c ≠ 'n' ∨ d ≠ 'f') ∧ cs.head? ≠ some 'f')
    ⟨fun h => ⟨h.1, h.2.1, h.2.2⟩, fun h => ⟨h.capital, h.chain, h.head⟩⟩

namespace Wordless

variable {cs ds : List Char} {c : Char}

theorem holds_no_word (h : Wordless cs) : ¬ "NaN".toList <:+: cs ∧ ¬ "inf".toList <:+: cs := by
  constructor
  · intro hword
    exact h.capital (hword.subset (by decide))
  · intro hword
    have hchain : "inf".toList.IsChain fun c d => c ≠ 'n' ∨ d ≠ 'f' :=
      List.IsChain.infix h.chain hword
    revert hchain
    decide

theorem append (h : Wordless cs) (h' : Wordless ds) : Wordless (cs ++ ds) where
  capital hmem := (List.mem_append.mp hmem).elim h.capital h'.capital
  chain := by
    refine List.isChain_append.mpr ⟨h.chain, h'.chain, fun c _ d hd => .inr ?_⟩
    rintro rfl
    exact h'.head hd
  head := by
    cases cs with
    | nil => exact h'.head
    | cons c cs => exact h.head

theorem of_forall (h : ∀ c ∈ cs, c ≠ 'n' ∧ c ≠ 'N') (hhead : cs.head? ≠ some 'f') :
    Wordless cs where
  capital hmem := (h 'N' hmem).2 rfl
  chain := by
    rw [List.isChain_iff_getElem]
    intro i hi
    exact .inl (h _ (List.getElem_mem _)).1
  head := hhead

theorem singleton (h : c ≠ 'n' ∧ c ≠ 'N' ∧ c ≠ 'f') : Wordless [c] :=
  of_forall (List.forall_mem_singleton.mpr ⟨h.1, h.2.1⟩) (by simpa using h.2.2)

theorem cons (hc : c ≠ 'n' ∧ c ≠ 'N' ∧ c ≠ 'f') (h : Wordless cs) : Wordless (c :: cs) :=
  (singleton hc).append h

theorem flatMap {α : Type} {f : α → List Char} {xs : List α} (h : ∀ x ∈ xs, Wordless (f x)) :
    Wordless (xs.flatMap f) := by
  induction xs with
  | nil => exact of_forall nofun nofun
  | cons x xs ih =>
    obtain ⟨hx, hxs⟩ := List.forall_mem_cons.mp h
    exact hx.append (ih hxs)

end Wordless

/-! ## Numbers -/

theorem Numeric.Decimal.wordless_chars (d : Decimal) : Wordless d.chars := by
  have hplain : ∀ c ∈ d.chars, c ≠ 'n' ∧ c ≠ 'N' ∧ c ≠ 'f' := by
    intro c hc
    rcases isDigit_or_of_mem_chars c hc with hdigit | rfl
    · refine ⟨?_, ?_, ?_⟩ <;> rintro rfl <;> revert hdigit <;> decide
    · decide
  refine .of_forall (fun c hc => ⟨(hplain c hc).1, (hplain c hc).2.1⟩) fun hhead => ?_
  exact (hplain 'f' (List.mem_of_mem_head? hhead)).2.2 rfl

/-- A finite number is written in digits, with a point and a sign at most. -/
theorem Numeric.Encoding.wordless_chars {f : Format} {e : Encoding f} (h : e.isFinite = true) :
    Wordless e.chars := by
  have hnum : e.isNaN = false := decide_eq_false (Nat.lt_asymm (of_decide_eq_true h))
  have hmagnitude : Wordless e.magnitude := by
    rw [magnitude, if_pos h]
    exact Decimal.wordless_chars _
  rw [chars, if_neg (Bool.eq_false_iff.mp hnum)]
  split
  · exact hmagnitude.cons (by decide)
  · exact hmagnitude

theorem wordless_floatChars {x : Float} (hx : x.isFinite = true) : Wordless (floatChars x) :=
  Encoding.wordless_chars (by rw [Encoding.isFinite_ofFloat, hx])

theorem wordless_narrowChars {x : Float} (hx : x.isFinite = true) (h : |value x| < 2 ^ 127) :
    Wordless (narrowChars x) := Encoding.wordless_chars (Encoding.isFinite_narrow hx h)

/-! ## Elements -/

namespace Svg

theorem wordless_hexChars (c : Color) : Wordless c.hexChars := by
  have hdigit : ∀ d < 16, d.digitChar ≠ 'n' ∧ d.digitChar ≠ 'N' := by decide
  exact .of_forall (Color.forall_mem_hexChars (by decide) hdigit c) (by simp [Color.hexChars])

theorem wordless_field {name : String} {value : List Char}
    (hname : Wordless (' ' :: name.toList)) (hvalue : Wordless value) :
    Wordless (field name value) := by
  have hquote : Wordless ['"'] := .singleton (by decide)
  exact hname.append (((hvalue.append hquote).cons (by decide)).cons (by decide))

theorem wordless_vertex {letter : Char} (h : letter ≠ 'n' ∧ letter ≠ 'N' ∧ letter ≠ 'f')
    {p : Point Float} (hx : Wordless (narrowChars p.x)) (hy : Wordless (narrowChars p.y)) :
    Wordless (vertex letter p) := by
  have hblank : Wordless [' '] := .singleton (by decide)
  exact (hx.append ((hy.append hblank).cons (by decide))).cons h

theorem wordless_pathData {o : Outline Float}
    (h : ∀ p ∈ o.points, Wordless (narrowChars p.x) ∧ Wordless (narrowChars p.y)) :
    Wordless (pathData o) := by
  have hclose : Wordless ['z'] := .singleton (by decide)
  rw [pathData]
  split
  · exact hclose
  · next p ps hpoints =>
    rw [hpoints] at h
    obtain ⟨⟨hx, hy⟩, hrest⟩ := List.forall_mem_cons.mp h
    refine ((wordless_vertex (by decide) hx hy).append (.flatMap fun q hq => ?_)).append hclose
    exact wordless_vertex (by decide) (hrest q hq).1 (hrest q hq).2

theorem wordless_path {s : Shape Float} (halpha : Wordless (floatChars s.alpha))
    (h : ∀ p ∈ s.outline.points, Wordless (narrowChars p.x) ∧ Wordless (narrowChars p.y)) :
    Wordless (path s) := by
  have hopacity : Wordless (opacity s.alpha) := by
    rw [opacity]
    split
    · exact wordless_field (by decide) halpha
    · exact .of_forall nofun nofun
  unfold path
  exact (((((by decide : Wordless "<path".toList).append
    (wordless_field (by decide) (wordless_pathData h))).append
    (wordless_field (by decide) (wordless_hexChars _))).append hopacity).append
    (wordless_field (by decide) (by decide))).append (by decide)

theorem wordless_heading {surface : Surface Float} (hwidth : Wordless (floatChars surface.width))
    (hheight : Wordless (floatChars surface.height)) : Wordless (heading surface) := by
  have hbox : Wordless
      ("0 0 ".toList ++ floatChars surface.width ++ ' ' :: floatChars surface.height) :=
    ((by decide : Wordless "0 0 ".toList).append hwidth).append (hheight.cons (by decide))
  unfold heading
  exact ((((by decide : Wordless "<svg".toList).append (wordless_field (by decide) hheight)).append
    (wordless_field (by decide) hbox)).append (wordless_field (by decide) hwidth)).append
    (wordless_field (by decide) (by decide))

/-- A picture whose numbers are finite, its coordinates also in single precision, holds no
word for a number that is not. -/
theorem wordless_document {shapes : List (Shape Float)} {surface : Surface Float}
    (hwidth : surface.width.isFinite = true) (hheight : surface.height.isFinite = true)
    (halpha : ∀ s ∈ shapes, s.alpha.isFinite = true)
    (hpoints : ∀ s ∈ shapes, ∀ p ∈ s.outline.points,
      (p.x.isFinite = true ∧ |value p.x| < 2 ^ 127) ∧
        p.y.isFinite = true ∧ |value p.y| < 2 ^ 127) : Wordless (document shapes surface) := by
  have hheading := wordless_heading (wordless_floatChars hwidth) (wordless_floatChars hheight)
  have hlines : Wordless (shapes.flatMap fun s => '\n' :: path s) := by
    refine .flatMap fun s hs => (wordless_path (wordless_floatChars (halpha s hs)) ?_).cons
      (by decide)
    intro p hp
    obtain ⟨⟨hx, hx'⟩, hy, hy'⟩ := hpoints s hs p hp
    exact ⟨wordless_narrowChars hx hx', wordless_narrowChars hy hy'⟩
  unfold document
  split
  · exact hheading.append (by decide)
  · exact (hheading.append (hlines.cons (by decide))).append (by decide)

end Svg

end PlantGrammar
