import Mathlib.Logic.Function.Basic
import PlantGrammar.Proofs.Outcome
import PlantGrammar.Storage.Folder

/-!
# What the calls on a folder change

A place is seen through its entries: what each name in it stands for. Writing,
renaming and removing a file succeed under conditions on names and entries alone, and
then they change the entries of the names they are given, and no other.
-/

namespace PlantGrammar.Storage

namespace Folder

variable {f : Folder} {name : String} {entry : Entry}

theorem get?_of_isLink (f : Folder) (h : isLink name) : f.get? name = some .folder := if_pos h

theorem get?_of_not_isLink (f : Folder) (h : ¬ isLink name) :
    f.get? name = f.entries.lookup name := if_neg h

theorem lookup_erase (f : Folder) (name other : String) :
    (f.erase name).entries.lookup other =
      if other = name then none else f.entries.lookup other := by
  obtain ⟨entries⟩ := f
  rw [erase]
  induction entries with
  | nil => simp
  | cons e entries ih =>
    obtain ⟨first, e⟩ := e
    by_cases hfirst : first = name
    · rw [List.filter_cons_of_neg (by simp [hfirst]), ih, List.lookup_cons, hfirst]
      split
      · rfl
      · rw [beq_false_of_ne ‹_›]
    · rw [List.filter_cons_of_pos (by simp [hfirst]), List.lookup_cons, ih, List.lookup_cons]
      grind

/-- A change of the entries under one name is one of what the names stand for, unless the
name stands for a folder in every folder. -/
theorem get?_eq_update {f g : Folder} {entry : Option Entry} (h : ¬ isLink name)
    (hlookup : ∀ other, g.entries.lookup other =
      if other = name then entry else f.entries.lookup other) :
    g.get? = Function.update f.get? name entry := by
  funext other
  rw [Function.update_apply]
  by_cases hlink : isLink other
  · have hne : other ≠ name := fun heq => h (heq ▸ hlink)
    rw [if_neg hne, get?_of_isLink _ hlink, get?_of_isLink _ hlink]
  · rw [get?_of_not_isLink _ hlink, get?_of_not_isLink _ hlink, hlookup]

theorem get?_erase (f : Folder) (h : ¬ isLink name) :
    (f.erase name).get? = Function.update f.get? name none :=
  get?_eq_update h fun other => lookup_erase f name other

theorem get?_put (f : Folder) (entry : Entry) (h : ¬ isLink name) :
    (f.put name entry).get? = Function.update f.get? name (some entry) := by
  refine get?_eq_update h fun other => ?_
  rw [put, List.lookup_cons, lookup_erase]
  grind

theorem not_isLink_of_get? {e : Option Entry} (h : f.get? name = e) (hne : e ≠ some .folder) :
    ¬ isLink name := fun hlink => hne (h ▸ get?_of_isLink f hlink)

end Folder

namespace Place

variable {p q : Place} {name source target : String} {content : ByteArray}

/-- What the names of a place stand for. Where there is no folder, they stand for
nothing. -/
def find? (p : Place) (name : String) : Option Entry := p.bind (·.get? name)

/-- A name that the system looks up in the folder itself. -/
structure IsName (name : String) : Prop where
  noNul : '\x00' ∉ name.toList
  noSlash : '/' ∉ name.toList
  short : name.utf8ByteSize ≤ maxNameBytes

instance (name : String) : Decidable (IsName name) :=
  decidable_of_iff ('\x00' ∉ name.toList ∧ '/' ∉ name.toList ∧
    name.utf8ByteSize ≤ maxNameBytes)
    ⟨fun h => ⟨h.1, h.2.1, h.2.2⟩, fun h => ⟨h.noNul, h.noSlash, h.short⟩⟩

theorem enter_eq_ok_iff {f : Folder} : p.enter name = .ok f ↔ p = some f ∧ IsName name := by
  unfold enter
  split
  · -- a character that no name has
    simp only [reduceCtorEq, false_iff]
    exact fun h => h.2.noNul ‹_›
  · cases p with
    | none => simp
    | some f' =>
      dsimp only
      split
      · simp only [reduceCtorEq, false_iff]
        exact fun h => h.2.noSlash ‹_›
      · split
        · simp only [reduceCtorEq, false_iff]
          exact fun h => Nat.not_le_of_lt ‹_› h.2.short
        · simp only [Except.ok.injEq, Option.some.injEq, iff_self_and]
          exact fun _ => ⟨‹_›, ‹_›, Nat.le_of_not_lt ‹_›⟩

/-- A file is written where no folder stands. -/
theorem write_eq_ok_iff :
    p.write name content = .ok q ↔ ∃ f, p = some f ∧ IsName name ∧
      f.get? name ≠ some .folder ∧ q = some (f.put name (.file content)) := by
  simp only [write, bind_eq_ok_iff, enter_eq_ok_iff, and_assoc]
  refine exists_congr fun f => and_congr_right fun _ => and_congr_right fun _ => ?_
  split
  · simp_all
  · rw [Except.ok.injEq]
    exact ⟨fun h => ⟨‹_›, h.symm⟩, fun h => h.2.symm⟩

/-- A file takes a name where no folder stands. -/
theorem rename_eq_ok_iff :
    p.rename source target = .ok q ↔ ∃ f content, p = some f ∧ IsName source ∧
      IsName target ∧ f.get? source = some (.file content) ∧
      f.get? target ≠ some .folder ∧
      q = some ((f.erase source).put target (.file content)) := by
  simp only [rename, bind_eq_ok_iff, enter_eq_ok_iff]
  constructor
  · rintro ⟨f, ⟨rfl, hsource⟩, f', ⟨_, htarget⟩, h⟩
    split at h
    · cases h
    · split at h
      · cases h
      · cases h
        exact ⟨f, _, rfl, hsource, htarget, ‹_›, ‹_›, rfl⟩
      · cases h
  · rintro ⟨f, content, rfl, hsource, htarget, hfile, hfree, rfl⟩
    refine ⟨f, ⟨rfl, hsource⟩, f, ⟨rfl, htarget⟩, ?_⟩
    have hlink : ¬ (Folder.isLink source || Folder.isLink target) = true := by
      simp [Folder.not_isLink_of_get? hfile (by simp), Folder.not_isLink_of_get? rfl hfree]
    rw [if_neg hlink, hfile]
    split
    · simp_all
    · simp_all
    · simp_all

/-- A file is removed. -/
theorem remove_eq_ok_iff :
    p.remove name = .ok q ↔ ∃ f content, p = some f ∧ IsName name ∧
      f.get? name = some (.file content) ∧ q = some (f.erase name) := by
  simp only [remove, bind_eq_ok_iff, enter_eq_ok_iff]
  constructor
  · rintro ⟨f, ⟨rfl, hname⟩, h⟩
    split at h
    · cases h
      exact ⟨f, _, rfl, hname, ‹_›, rfl⟩
    · cases h
    · cases h
  · rintro ⟨f, content, rfl, hname, hfile, rfl⟩
    exact ⟨f, ⟨rfl, hname⟩, by rw [hfile]⟩

/-! ## Calls, seen through the entries -/

theorem find?_write (h : p.write name content = .ok q) :
    q.find? = Function.update p.find? name (some (.file content)) := by
  obtain ⟨f, rfl, _, hfree, rfl⟩ := write_eq_ok_iff.mp h
  exact Folder.get?_put f _ (Folder.not_isLink_of_get? rfl hfree)

theorem find?_rename (h : p.rename source target = .ok q) :
    ∃ content, p.find? source = some (.file content) ∧
      q.find? = Function.update (Function.update p.find? source none) target
        (some (.file content)) := by
  obtain ⟨f, content, rfl, _, _, hfile, hfree, rfl⟩ := rename_eq_ok_iff.mp h
  refine ⟨content, hfile, ?_⟩
  have hsource := Folder.not_isLink_of_get? hfile (by simp)
  exact (Folder.get?_put _ _ (Folder.not_isLink_of_get? rfl hfree)).trans
    (by rw [Folder.get?_erase f hsource]; rfl)

theorem find?_remove (h : p.remove name = .ok q) :
    q.find? = Function.update p.find? name none := by
  obtain ⟨f, content, rfl, _, hfile, rfl⟩ := remove_eq_ok_iff.mp h
  exact Folder.get?_erase f (Folder.not_isLink_of_get? hfile (by simp))

/-- A file can be put under a name: there is a folder, the name is looked up in it, and
no folder stands there. -/
structure Takes (p : Place) (name : String) : Prop where
  there : p.isSome
  isName : IsName name
  free : p.find? name ≠ some .folder

theorem Takes.exists_write (h : p.Takes name) (content : ByteArray) :
    ∃ q, p.write name content = .ok q := by
  obtain ⟨f, rfl⟩ := Option.isSome_iff_exists.mp h.there
  exact ⟨_, write_eq_ok_iff.mpr ⟨f, rfl, h.isName, h.free, rfl⟩⟩

theorem Takes.exists_rename (h : p.Takes target) (hname : IsName source)
    (hfile : p.find? source = some (.file content)) : ∃ q, p.rename source target = .ok q := by
  obtain ⟨f, rfl⟩ := Option.isSome_iff_exists.mp h.there
  exact ⟨_, rename_eq_ok_iff.mpr ⟨f, content, rfl, hname, h.isName, hfile, h.free, rfl⟩⟩

theorem exists_remove (hname : IsName name) (hfile : p.find? name = some (.file content)) :
    ∃ q, p.remove name = .ok q := by
  obtain ⟨f, rfl, hf⟩ := Option.bind_eq_some_iff.mp hfile
  exact ⟨_, remove_eq_ok_iff.mpr ⟨f, content, rfl, hname, hf, rfl⟩⟩

/-- An empty folder takes a file under any name that can be looked up. -/
theorem takes_empty (hname : IsName name) (hlink : ¬ Folder.isLink name) :
    Takes (some .empty) name := by
  refine ⟨rfl, hname, ?_⟩
  change Folder.empty.get? name ≠ _
  rw [Folder.get?_of_not_isLink _ hlink]
  simp [Folder.empty]

/-- Where a file has just been put, another could be put. -/
theorem takes_of_write (h : p.write name content = .ok q) : q.Takes name := by
  have hentries := find?_write h
  obtain ⟨f, rfl, hname, _, rfl⟩ := write_eq_ok_iff.mp h
  refine ⟨rfl, hname, ?_⟩
  rw [hentries, Function.update_self]
  simp

theorem takes_of_rename (h : p.rename source target = .ok q) : q.Takes target := by
  obtain ⟨content, _, hentries⟩ := find?_rename h
  obtain ⟨f, _, rfl, _, htarget, _, _, rfl⟩ := rename_eq_ok_iff.mp h
  refine ⟨rfl, htarget, ?_⟩
  rw [hentries, Function.update_self]
  simp

theorem Takes.of_find? (h : p.Takes name) (hq : q.isSome)
    (hentry : q.find? name = p.find? name) : q.Takes name :=
  ⟨hq, h.isName, hentry ▸ h.free⟩

/-- Writing one file leaves the other names as takeable as they were. -/
theorem Takes.write {other : String} (h : p.Takes other)
    (call : p.write name content = .ok q) : q.Takes other := by
  by_cases hname : other = name
  · exact hname ▸ takes_of_write call
  · refine h.of_find? (takes_of_write call).there ?_
    rw [find?_write call, Function.update_of_ne hname]

theorem Takes.rename {other : String} (h : p.Takes other)
    (call : p.rename source target = .ok q) : q.Takes other := by
  obtain ⟨content, _, hentries⟩ := find?_rename call
  refine ⟨(takes_of_rename call).there, h.isName, ?_⟩
  have hfree := h.free
  rw [hentries, Function.update_apply, Function.update_apply]
  split
  · simp
  · split
    · simp
    · exact hfree

/-- A file that holds a text is read as that text. -/
theorem Takes.read (h : p.Takes name) {text : String}
    (hfile : p.find? name = some (.file text.toUTF8)) : p.read name = .ok text := by
  obtain ⟨f, rfl⟩ := Option.isSome_iff_exists.mp h.there
  have hget : f.get? name = some (.file text.toUTF8) := hfile
  have htext : String.fromUTF8? text.toUTF8 = some text := dif_pos text.isValidUTF8
  rw [Place.read, bind_eq_ok_iff]
  refine ⟨f, enter_eq_ok_iff.mpr ⟨rfl, h.isName⟩, ?_⟩
  rw [hget]
  dsimp only
  rw [htext]

end Place

end PlantGrammar.Storage
