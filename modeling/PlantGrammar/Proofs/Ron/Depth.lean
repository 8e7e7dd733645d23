import PlantGrammar.Proofs.Ron.Skipping

/-!
# Depth

How deep a value may nest only decides whether it is passed over, not how much of the
text is: what is passed over with some depth is passed over in the same way with more
(`Reader.value_extends`). One reader extends another if it takes all that the other does,
and whatever a reader of values is built with keeps that.
-/

namespace PlantGrammar.Ron

open Reader Text

variable {α β σ : Type} {cs rest text : List Char}

namespace Reader

/-! ## Readers that take more -/

/-- What one reader takes the other takes as well. -/
def Extends (r r' : Reader α) : Prop :=
  ∀ cs a rest, r cs = .ok (a, rest) → r' cs = .ok (a, rest)

theorem Extends.refl (r : Reader α) : Extends r r := fun _ _ _ h => h

theorem extends_malformed (r : Reader α) : Extends malformed r := nofun

theorem Extends.bind {r r' : Reader α} {f f' : α → Reader β} (hr : Extends r r')
    (hf : ∀ a, Extends (f a) (f' a)) : Extends (r >>= f) (r' >>= f') := by
  intro cs b rest h
  obtain ⟨a, mid, hread, hmore⟩ := bind_eq_ok.mp h
  exact bind_eq_ok.mpr ⟨a, mid, hr _ _ _ hread, hf a _ _ _ hmore⟩

theorem itemsWith_extends {close : Char} {item item' : σ → Reader σ}
    (h : ∀ s, Extends (item s) (item' s)) (fuel : List Char) : ∀ mayFollow s,
    Extends (itemsWith close item fuel mayFollow s) (itemsWith close item' fuel mayFollow s) := by
  induction fuel with
  | nil => exact fun _ _ => .refl _
  | cons f fuel ih =>
    intro mayFollow s
    rw [itemsWith, itemsWith]
    refine (Extends.refl _).bind fun _ => (Extends.refl _).bind fun c => ?_
    split
    · exact .refl _
    · split
      · exact (h s).bind fun s => (Extends.refl _).bind fun found => ih found s
      · exact .refl _

/-- Where there is a reader to go further inside with, there is one that extends it. -/
def ExtendsIf (r r' : Option (Reader Unit)) : Prop :=
  ∀ found ∈ r, ∃ found' ∈ r', Extends found found'

/-! ## Going further inside -/

section Depth

variable {visit visit' : Option (Bool → Reader Unit)} {item item' : Option (Reader Unit)}

theorem orTooDeep_extends (h : ExtendsIf item item') :
    Extends (orTooDeep item) (orTooDeep item') := by
  cases item with
  | none => exact extends_malformed _
  | some found =>
    obtain ⟨found', rfl, hfound⟩ := h found rfl
    exact hfound

theorem enclosed_extends {γ : Type} {close : Char} {visit visit' : Option γ}
    {item item' : Reader Unit}
    (hvisit : visit.isSome = true → visit'.isSome = true) (hitem : Extends item item') :
    Extends (enclosed close visit item) (enclosed close visit' item') := by
  refine Extends.bind ?_ fun _ => .refl _
  cases visit with
  | none => exact extends_malformed _
  | some found =>
    obtain ⟨found', rfl⟩ := Option.isSome_iff_exists.mp (hvisit rfl)
    exact Extends.bind (fun cs => itemsWith_extends (fun _ => hitem) cs true () cs) fun _ => .refl _

theorem entry_extends {key key' value value' : Reader Unit} (hkey : Extends key key')
    (hvalue : Extends value value') : Extends (entry key value) (entry key' value') :=
  hkey.bind fun _ => (Extends.refl _).bind fun _ => (Extends.refl _).bind fun _ =>
    (Extends.refl _).bind fun _ => hvalue

theorem namedEntry_extends (h : ExtendsIf item item') :
    Extends (namedEntry item) (namedEntry item') := by
  refine entry_extends (orTooDeep_extends ?_) (orTooDeep_extends h)
  rintro found hfound
  obtain ⟨r, hr, rfl⟩ := Option.mem_map.mp hfound
  obtain ⟨r', hr', -⟩ := h r hr
  exact ⟨_, Option.mem_map_of_mem _ hr', .refl _⟩

theorem parenthesised_extends (hvisit : visit.isSome = true → visit'.isSome = true)
    (hitem : ExtendsIf item item') :
    Extends (parenthesised visit item) (parenthesised visit' item') := by
  refine (Extends.refl _).bind fun named => ?_
  cases named
  · exact enclosed_extends hvisit (orTooDeep_extends hitem)
  · exact enclosed_extends hvisit (namedEntry_extends hitem)

theorem unnamedWith_extends (hvisit : visit.isSome = true → visit'.isSome = true)
    (hitem : ExtendsIf item item') :
    Extends (unnamedWith visit item) (unnamedWith visit' item') := by
  intro cs a rest h
  have hvalue := orTooDeep_extends hitem
  rw [unnamedWith.eq_def] at h ⊢
  split at h
  · exact parenthesised_extends hvisit hitem _ _ _ h
  · exact enclosed_extends hvisit hvalue _ _ _ h
  · exact enclosed_extends hvisit (entry_extends hvalue hvalue) _ _ _ h
  -- nothing else goes further inside
  all_goals exact h

/-- What is read of a value, but for its parts, does not depend on how deep they may be. -/
theorem valueWith_extends
    (hvisit : ∀ held, ExtendsIf (visit.map fun r => r held) (visit'.map fun r => r held))
    (hitem : ExtendsIf item item') :
    Extends (valueWith {} visit item) (valueWith {} visit' item') := by
  have hsome : visit.isSome = true → visit'.isSome = true := by
    intro h
    obtain ⟨found, rfl⟩ := Option.isSome_iff_exists.mp h
    obtain ⟨found', hfound, -⟩ := hvisit true (found true) rfl
    exact Option.isSome_map.symm.trans (Option.isSome_of_mem hfound)
  have hoptional : Extends (Reader.optional {} visit) (Reader.optional {} visit') := by
    refine (Extends.refl _).bind fun _ => (Extends.refl _).bind fun opened => ?_
    cases opened
    · exact .refl _
    · exact (Extends.refl _).bind fun _ => (orTooDeep_extends (hvisit true)).bind fun _ => .refl _
  intro cs a rest h
  rw [valueWith.eq_def] at h ⊢
  split at h
  · exact h
  · exact hoptional _ _ _ h
  · exact h
  · cases hname : identifier cs with
    | error fault =>
      rw [hname] at h
      exact unnamedWith_extends hsome hitem _ _ _ h
    | ok found =>
      rw [hname] at h
      dsimp only at h ⊢
      cases hblank : blank found.2 with
      | error fault =>
        rw [hblank] at h
        cases h
      | ok after =>
        obtain ⟨⟨⟩, after⟩ := after
        rw [hblank] at h
        dsimp only [bind, Except.bind] at h ⊢
        split at h
        · exact parenthesised_extends hsome hitem _ _ _ h
        · exact h

end Depth

/-- A value that is passed over with some depth is passed over with more. -/
theorem value_extends {depth depth' : Nat} (h : depth ≤ depth') :
    Extends (value {} depth) (value {} depth') := by
  induction depth using Nat.strong_induction_on generalizing depth' with
  | _ depth ih =>
    have hvalueIn : ∀ depth held, valueIn {} depth held = value {} depth := by
      rintro depth (_ | _)
      · rfl
      · exact valueIn_true depth
    rw [value_eq, value_eq]
    refine valueWith_extends (fun held => ?_) ?_
    · rintro found hfound
      cases depth with
      | zero => cases hfound
      | succ depth =>
        obtain ⟨depth', rfl⟩ : ∃ below, depth' = below + 1 := ⟨depth' - 1, by omega⟩
        obtain rfl : valueIn {} depth held = found := Option.some.inj hfound
        refine ⟨valueIn {} depth' held, rfl, ?_⟩
        rw [hvalueIn, hvalueIn]
        exact ih depth (by omega) (by omega)
    · rintro found hfound
      match depth, hfound with
      | depth + 2, hfound =>
        obtain ⟨depth', rfl⟩ : ∃ below, depth' = below + 2 := ⟨depth' - 2, by omega⟩
        obtain rfl : value {} depth = found := Option.some.inj hfound
        exact ⟨value {} depth', rfl, ih depth (by omega) (by omega)⟩

end Reader

end PlantGrammar.Ron
