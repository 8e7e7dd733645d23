import PlantGrammar.Proofs.Ron.Codec

/-!
# Enumerations are read back

A value of an enumeration is written as the name of its variant and, directly behind
it, what the variant holds: nothing, one value or the fields of a record. The name is
read whole and picks the variant, which reads the rest.
-/

namespace PlantGrammar.Ron

open Reader

variable {α β : Type}

/-! ## Variants -/

/-- What is written behind the name of a variant is read as `a`. -/
structure Variant.ReadsAs (variant : Variant α) (need : Nat) (text : List Char) (a : α) : Prop where
  ends : ∀ rest, Ends rest → EndsName (text ++ rest)
  read : ∀ depth rest, need ≤ depth → Ends rest →
    variant.read {} depth (text ++ rest) = .ok (a, rest)

namespace Variant

theorem ReadsAs.mono {variant : Variant α} {need need' : Nat} {text : List Char} {a : α}
    (h : variant.ReadsAs need text a) (hle : need ≤ need') : variant.ReadsAs need' text a :=
  ⟨h.ends, fun depth rest hdepth => h.read depth rest (Nat.le_trans hle hdepth)⟩

/-- Behind a name alone nothing is read. -/
theorem plain_readsAs (name : String) (a : α) : (plain name a).ReadsAs 0 [] a where
  ends _ hrest := endsName_of_ends hrest
  read _ _ _ _ := rfl

/-- A value in parentheses is read without a comma behind it. -/
theorem single_readsAs {c : Codec β} {need : Nat} {kept : β → β} (h : c.ReadsBack need kept)
    (name : String) (make : β → α) (level : Nat) (b : β) :
    (single name c make).ReadsAs (need + 1) ('(' :: (c.write level b ++ [')']))
      (make (kept b)) where
  ends _ _ := endsName_paren _
  read depth rest hdepth _ := by
    obtain ⟨depth, rfl⟩ : ∃ inner, depth = inner + 1 := ⟨depth - 1, by omega⟩
    let behind := ')' :: rest
    have htext : ('(' :: (c.write level b ++ [')'])) ++ rest =
        '(' :: (c.write level b ++ behind) := by
      simp [behind]
    have hparen : Seen '(' ∧ Seen ')' := by decide
    have hvalue : blank (c.write level b ++ behind) = .ok ((), c.write level b ++ behind) :=
      ((h.begins level b).append behind).blank
    have hread : c.read {} depth (c.write level b ++ behind) = .ok (kept b, behind) :=
      h.read level depth b behind (Nat.le_of_add_le_add_right hdepth) (ends_cons (by decide) rest)
    rw [single, htext]
    dsimp only
    rw [bind_ok (hparen.1.blank _), bind_ok (expect_cons '(' _), bind_ok hvalue, inside_succ,
      bind_ok hread, bind_ok (comma_of_ne hparen.2 (by decide) rest),
      bind_ok (expect_cons ')' rest)]
    rfl

/-- The fields of a record are read behind the name that the record has. -/
theorem fields_readsAs {r : Record β} (hr : r.WellNamed) {need : Nat} {b b' : β}
    (h : Field.Rebuilds need b r.fields r.initial b') (make : β → α) (level : Nat) :
    (fields r make).ReadsAs (need + 2) (r.write level b) (make b') where
  ends _ _ := endsName_paren _
  read depth rest hdepth _ := by
    rw [fields]
    dsimp only
    rw [bind_ok (Record.readFields_write hr h level hdepth rest)]
    rfl

end Variant

/-! ## Enumerations -/

/-- An enumeration is read back if its variants have names of their own and each value
is written as one of them. -/
theorem Codec.enumeration_readsBack {owner : String} {variants : List (Variant α)}
    {write : Nat → α → List Char} {need : Nat} {kept : α → α}
    (hnames : ∀ variant ∈ variants, IsPlain variant.name.toList)
    (hdistinct : (variants.map (·.name)).Nodup)
    (h : ∀ level a, ∃ variant ∈ variants, ∃ text, write level a = variant.name.toList ++ text ∧
      variant.ReadsAs (need + 1) text (kept a)) :
    (enumeration owner variants write).ReadsBack (need + 2) kept where
  begins level a := by
    obtain ⟨variant, hvariant, text, htext, -⟩ := h level a
    have hclose : beginsName ']' = false := by decide
    rw [enumeration]
    dsimp only
    rw [htext]
    exact ((hnames variant hvariant).isName.begins hclose).append text
  read level depth a rest hdepth hrest := by
    obtain ⟨depth, rfl⟩ : ∃ inner, depth = inner + 2 := ⟨depth - 2, by omega⟩
    obtain ⟨variant, hvariant, text, htext, hreads⟩ := h level a
    have hname := (hnames variant hvariant).isName
    have hclose : beginsName ']' = false := by decide
    have hkey : identifier (variant.name.toList ++ (text ++ rest)) =
        .ok (variant.name.toList, text ++ rest) :=
      identifier_append hname (hreads.ends rest hrest)
    rw [enumeration]
    dsimp only
    rw [htext, List.append_assoc, inside_succ,
      bind_ok ((hname.begins hclose).append (text ++ rest)).blank, inside_succ, bind_ok hkey,
      find?_name Variant.name hdistinct hvariant]
    exact hreads.read (depth + 1) rest (Nat.le_of_succ_le_succ hdepth) hrest

end PlantGrammar.Ron
