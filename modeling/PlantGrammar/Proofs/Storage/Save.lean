import PlantGrammar.Proofs.Storage.Folder
import PlantGrammar.Ron.Schema
import PlantGrammar.Storage.Document

/-!
# What a save leaves at every point

A save touches two names, its draft and its target. The draft may hold any part of
the text on the way; the target changes once, when the complete draft takes its name.
So whoever looks at the target finds the old entry or the whole text, however often
the disk cuts in.
-/

namespace PlantGrammar.Storage

open Ron

namespace Save

/-! ## One step -/

/-- What a step of a save makes of its place, and which step it leaves due. Where the
disk does not cut in, a call fails by the rules of folders only. -/
inductive Moves (m : Mishap) (s : Save) (p : Place) : Place → Stage → Prop
  | written {q : Place} (due : s.stage = .draft) (calm : m = .none)
      (call : p.write s.draft s.content = .ok q) : Moves m s p q .publish
  | unwritten {cause : Refusal} (due : s.stage = .draft)
      (call : m = .none → ∃ why, p.write s.draft s.content = .error why) :
      Moves m s p p (.finished (.error cause))
  | torn {q : Place} {kept : Nat} {cause : Refusal} (due : s.stage = .draft)
      (cut : m = .torn kept cause)
      (call : p.write s.draft (s.content.extract 0 kept) = .ok q) :
      Moves m s p q (.finished (.error cause))
  | published {q : Place} (due : s.stage = .publish) (calm : m = .none)
      (call : p.rename s.draft s.target = .ok q) : Moves m s p q (.finished (.ok ()))
  | unpublished {cause : Refusal} (due : s.stage = .publish)
      (call : m = .none → ∃ why, p.rename s.draft s.target = .error why) :
      Moves m s p p (.discard cause)
  | discarded {q : Place} {cause : Refusal} (due : s.stage = .discard cause)
      (calm : m = .none) (call : p.remove s.draft = .ok q) :
      Moves m s p q (.finished (.error cause))
  | undiscarded {cause : Refusal} (due : s.stage = .discard cause)
      (call : m = .none → ∃ why, p.remove s.draft = .error why) :
      Moves m s p p (.finished (.error cause))
  | idle {result : Except Refusal Unit} (due : s.stage = .finished result) :
      Moves m s p p (.finished result)

variable {m : Mishap} {s : Save} {p q : Place} {stage : Stage}

theorem moves_stepDraft (due : s.stage = .draft) :
    ∃ q stage, s.stepDraft m p = (q, { s with stage := stage }) ∧ Moves m s p q stage := by
  unfold stepDraft
  cases m with
  | none =>
    cases hcall : p.write s.draft s.content with
    | ok q => exact ⟨q, .publish, rfl, .written due rfl hcall⟩
    | error why => exact ⟨p, .finished (.error why), rfl, .unwritten due fun _ => ⟨why, hcall⟩⟩
  | refused cause => exact ⟨p, .finished (.error cause), rfl, .unwritten due nofun⟩
  | torn kept cause =>
    dsimp only
    cases hcall : p.write s.draft (s.content.extract 0 kept) with
    | ok q => exact ⟨q, .finished (.error cause), rfl, .torn due rfl hcall⟩
    | error why => exact ⟨p, .finished (.error why), rfl, .unwritten due nofun⟩

theorem moves_stepPublish (due : s.stage = .publish) :
    ∃ q stage, s.stepPublish m p = (q, { s with stage := stage }) ∧ Moves m s p q stage := by
  unfold stepPublish
  cases m with
  | none =>
    cases hcall : p.rename s.draft s.target with
    | ok q => exact ⟨q, .finished (.ok ()), rfl, .published due rfl hcall⟩
    | error why => exact ⟨p, .discard why, rfl, .unpublished due fun _ => ⟨why, hcall⟩⟩
  | refused cause => exact ⟨p, .discard cause, rfl, .unpublished due nofun⟩
  | torn _ cause => exact ⟨p, .discard cause, rfl, .unpublished due nofun⟩

theorem moves_stepDiscard {cause : Refusal} (due : s.stage = .discard cause) :
    ∃ q stage, s.stepDiscard m p cause = (q, { s with stage := stage }) ∧
      Moves m s p q stage := by
  unfold stepDiscard
  cases m with
  | none =>
    cases hcall : p.remove s.draft with
    | ok q => exact ⟨q, .finished (.error cause), rfl, .discarded due rfl hcall⟩
    | error why =>
      exact ⟨p, .finished (.error cause), rfl, .undiscarded due fun _ => ⟨why, hcall⟩⟩
  | refused _ => exact ⟨p, .finished (.error cause), rfl, .undiscarded due nofun⟩
  | torn _ _ => exact ⟨p, .finished (.error cause), rfl, .undiscarded due nofun⟩

theorem moves_step (m : Mishap) (s : Save) (p : Place) :
    ∃ q stage, s.step m p = (q, { s with stage := stage }) ∧ Moves m s p q stage := by
  rw [step]
  cases due : s.stage with
  | draft => exact moves_stepDraft due
  | publish => exact moves_stepPublish due
  | discard cause => exact moves_stepDiscard due
  | finished result =>
    refine ⟨p, .finished result, ?_, .idle due⟩
    show (p, s) = _
    rw [← due]

/-! ## All steps -/

/-- How far a save has come, told by the entries of its place. `before` are the
entries it began with. -/
def Traces (before : String → Option Entry) (p : Place) (s : Save) : Prop :=
  match s.stage with
  | .draft => p.find? = before
  | .publish | .discard _ =>
    p.find? = Function.update before s.draft (some (.file s.content))
  | .finished (.ok _) => p.Takes s.target ∧
    p.find? = Function.update before s.target (some (.file s.content))
  | .finished (.error _) => ∃ left, p.find? = Function.update before s.draft left

variable {before : String → Option Entry}

/-- Whatever the disk does to a step, the entries tell how far the save is. -/
theorem Traces.step (h : Traces before p s) (hfree : before s.draft = none) (m : Mishap) :
    Traces before (s.step m p).1 (s.step m p).2 := by
  obtain ⟨q, stage, hstep, hmoves⟩ := moves_step m s p
  rw [hstep]
  cases hmoves with
  | written due _ call =>
    rw [Traces, due] at h
    exact h ▸ Place.find?_write call
  | unwritten due _ =>
    rw [Traces, due] at h
    exact ⟨none, by rw [h, ← hfree, Function.update_eq_self]⟩
  | torn due _ call =>
    rw [Traces, due] at h
    exact ⟨_, h ▸ Place.find?_write call⟩
  | published due _ call =>
    rw [Traces, due] at h
    obtain ⟨content, hfile, hentries⟩ := Place.find?_rename call
    rw [h, Function.update_self] at hfile
    cases hfile
    refine ⟨Place.takes_of_rename call, ?_⟩
    rw [hentries, h, Function.update_idem, ← hfree, Function.update_eq_self]
  | unpublished due _ =>
    rw [Traces, due] at h
    exact h
  | discarded due _ call =>
    rw [Traces, due] at h
    refine ⟨none, ?_⟩
    rw [Place.find?_remove call, h, Function.update_idem]
  | undiscarded due _ =>
    rw [Traces, due] at h
    exact ⟨_, h⟩
  | idle due =>
    rw [Traces, due] at h
    exact h

/-- A run of steps changes the stage of a save only. -/
theorem run_snd (ms : List Mishap) (p : Place) (s : Save) :
    (s.run ms p).2 = { s with stage := (s.run ms p).2.stage } := by
  induction ms generalizing p s with
  | nil => rfl
  | cons m ms ih =>
    obtain ⟨q, stage, hstep, _⟩ := moves_step m s p
    rw [run_cons, ih, hstep]

/-- Whatever the disk does, at every point the entries tell how far the save is. -/
theorem Traces.run (h : Traces before p s) (hfree : before s.draft = none)
    (ms : List Mishap) : Traces before (s.run ms p).1 (s.run ms p).2 := by
  induction ms generalizing p s with
  | nil => exact h
  | cons m ms ih =>
    have hnext := h.step hfree m
    obtain ⟨q, stage, hstep, _⟩ := moves_step m s p
    rw [run_cons]
    rw [hstep] at hnext ⊢
    exact ih hnext hfree

/-- At every point the target is what it was, or holds the whole content. -/
theorem Traces.find?_target (h : Traces before p s) (hne : s.draft ≠ s.target) :
    p.find? s.target = before s.target ∨ p.find? s.target = some (.file s.content) := by
  rw [Traces] at h
  split at h
  · exact .inl (by rw [h])
  · exact .inl (by rw [h, Function.update_of_ne hne.symm])
  · exact .inl (by rw [h, Function.update_of_ne hne.symm])
  · exact .inr (by rw [h.2, Function.update_self])
  · obtain ⟨left, h⟩ := h
    exact .inl (by rw [h, Function.update_of_ne hne.symm])

theorem result?_eq_some_iff {result : Except Refusal Unit} :
    s.result? = some result ↔ s.stage = .finished result := by
  rw [result?]
  split
  · simp_all
  · simp_all

/-- A save that ended well has changed the target and nothing else. -/
theorem Traces.done (h : Traces before p s) (hdone : s.result? = some (.ok ())) :
    p.Takes s.target ∧
      p.find? = Function.update before s.target (some (.file s.content)) := by
  rw [Traces, result?_eq_some_iff.mp hdone] at h
  exact h

/-- **A save is all or nothing under the real name.** However the disk cuts in, and
after however many steps, the target is what it was or a file with the complete text.
If the save ends well, it is that file, which reads back as its text does; every other
name stands for what it stood for, and no draft is left. -/
theorem save_all_or_nothing {α : Type} (c : Codec α) (a : α) (p : Place)
    (target tag : String) (hfree : p.find? (draftName target tag) = none)
    (hne : draftName target tag ≠ target) (ms : List Mishap) :
    let out := (start target tag (textOf c a)).run ms p
    (out.1.find? target = p.find? target ∨
      out.1.find? target = some (.file (textOf c a).toUTF8)) ∧
    (out.2.result? = some (.ok ()) →
      out.1.find? target = some (.file (textOf c a).toUTF8) ∧
      (∀ name, name ≠ target → out.1.find? name = p.find? name) ∧
      out.1.find? (draftName target tag) = none ∧
      loadValue c out.1 target = ofText c (textOf c a)) := by
  intro out
  have htrace : Traces p.find? out.1 out.2 := Traces.run (s := start target tag _) rfl hfree ms
  have hsave : out.2 = { start target tag (textOf c a) with stage := out.2.stage } := run_snd ..
  rw [hsave] at htrace
  refine ⟨htrace.find?_target hne, fun hdone => ?_⟩
  obtain ⟨htakes, hentries⟩ := htrace.done (hsave ▸ hdone)
  have hfile : out.1.find? target = some (.file (textOf c a).toUTF8) := by
    rw [hentries]
    exact Function.update_self ..
  have hother : ∀ name, name ≠ target → out.1.find? name = p.find? name := by
    intro name hname
    rw [hentries]
    exact Function.update_of_ne hname ..
  refine ⟨hfile, hother, (hother _ hne).trans hfree, ?_⟩
  have hread : out.1.read target = .ok (textOf c a) := htakes.read hfile
  rw [loadValue, hread]
  rfl

/-- A save over an older file, beside another one. -/
theorem save_all_or_nothing_over_old :
    let p : Place := some ⟨[("plant.ron", .file "()".toUTF8), ("notes.txt", .file "".toUTF8)]⟩
    let out := (start "plant.ron" "tmp-1" (textOf Codec.limits .standard)).run
      [.none, .none, .none] p
    p.find? (draftName "plant.ron" "tmp-1") = none ∧
    draftName "plant.ron" "tmp-1" ≠ "plant.ron" ∧
    out.2.result? = some (.ok ()) ∧
    out.1.find? "plant.ron" = some (.file (textOf Codec.limits .standard).toUTF8) ∧
    out.1.find? "notes.txt" = some (.file "".toUTF8) := by
  intro p out
  have hfree : p.find? (draftName "plant.ron" "tmp-1") = none := rfl
  have hne : draftName "plant.ron" "tmp-1" ≠ "plant.ron" := by decide
  have hdone : out.2.result? = some (.ok ()) := rfl
  obtain ⟨_, hsaved⟩ := save_all_or_nothing Codec.limits .standard p _ _ hfree hne
    [.none, .none, .none]
  obtain ⟨hfile, hother, _, _⟩ := hsaved hdone
  exact ⟨hfree, hne, hdone, hfile, hother "notes.txt" (by decide)⟩

theorem run_finished {result : Except Refusal Unit} (due : s.stage = .finished result)
    (ms : List Mishap) : s.run ms p = (p, s) := by
  induction ms with
  | nil => rfl
  | cons m ms ih =>
    have hstep : s.step m p = (p, s) := by rw [step, due]
    rw [run_cons, hstep]
    exact ih

/-- A save whose draft cannot take the target's name removes the draft, if nothing stops
it. -/
theorem run_unpublished {rename : Mishap} {cause : Refusal} (hdue : s.stage = .publish)
    (hname : Place.IsName s.draft) (hdraft : p.find? s.draft = some (.file s.content))
    (hfail : (s.run [rename, .none] p).2.result? = some (.error cause)) :
    (s.run [rename, .none] p).1.find? = Function.update p.find? s.draft none := by
  obtain ⟨q, stage, hstep, hmoves⟩ := moves_step rename s p
  rw [run_cons, hstep] at hfail ⊢
  cases hmoves with
  | published _ _ _ =>
    rw [run_finished rfl] at hfail
    cases hfail
  | unpublished _ _ =>
    obtain ⟨q, stage, hstep, hmoves⟩ := moves_step .none { s with stage := .discard _ } p
    rw [run_cons, hstep]
    cases hmoves with
    | discarded _ _ call => exact Place.find?_remove call
    | undiscarded _ call =>
      -- the draft is there, so it can be removed
      obtain ⟨q, hq⟩ := Place.exists_remove hname hdraft
      obtain ⟨why, hwhy⟩ := call rfl
      cases hq.symm.trans hwhy
    | written due | unwritten due | torn due | published due | unpublished due | idle due =>
      cases due
  | written due | unwritten due | torn due | discarded due | undiscarded due | idle due =>
    rw [hdue] at due
    cases due

/-- A save that failed although its draft could be removed has changed nothing, unless
the draft was torn in its writing: then what was written of it is all it did. -/
theorem run_failed {write rename : Mishap} {cause : Refusal} (hdue : s.stage = .draft)
    (hfree : p.find? s.draft = none)
    (hfail : (s.run [write, rename, .none] p).2.result? = some (.error cause)) :
    (s.run [write, rename, .none] p).1.find? = p.find? ∨
      ∃ kept why, write = .torn kept why ∧
        p.write s.draft (s.content.extract 0 kept) =
          .ok (s.run [write, rename, .none] p).1 := by
  obtain ⟨q, stage, hstep, hmoves⟩ := moves_step write s p
  rw [run_cons, hstep] at hfail ⊢
  cases hmoves with
  | unwritten _ _ =>
    rw [run_finished rfl]
    exact .inl rfl
  | torn _ cut call =>
    rw [run_finished rfl]
    exact .inr ⟨_, _, cut, call⟩
  | written _ _ call =>
    left
    have hdraft : q.find? s.draft = some (.file s.content) := by
      rw [Place.find?_write call, Function.update_self]
    have hrest := run_unpublished (s := { s with stage := .publish }) rfl
      (Place.takes_of_write call).isName hdraft hfail
    rw [hrest, Place.find?_write call, Function.update_idem, ← hfree, Function.update_eq_self]
  | published due | unpublished due | discarded due | undiscarded due | idle due =>
    rw [hdue] at due
    cases due

/-- A save whose draft is torn ends there, with what was written of the draft. -/
theorem run_torn {kept : Nat} (cause : Refusal) (hdue : s.stage = .draft)
    (call : p.write s.draft (s.content.extract 0 kept) = .ok q) (ms : List Mishap) :
    s.run (.torn kept cause :: ms) p = (q, { s with stage := .finished (.error cause) }) := by
  have hstep : s.step (.torn kept cause) p =
      (q, { s with stage := .finished (.error cause) }) := by
    rw [step, hdue]
    dsimp only
    rw [stepDraft, call]
  rw [run_cons, hstep]
  exact run_finished rfl ms

/-- **What a failed save leaves.** If its draft can be removed where it is, the folder
is as it was iff the write was not cut short once it had made the draft. If it was, all
other names are as they were, and the draft holds what was written. -/
theorem failed_save_leaves {α : Type} (c : Codec α) (a : α) (p : Place)
    (target tag : String) (hfree : p.find? (draftName target tag) = none)
    (write rename : Mishap) (cause : Refusal)
    (hfail : ((start target tag (textOf c a)).run [write, rename, .none] p).2.result? =
      some (.error cause)) :
    let left := ((start target tag (textOf c a)).run [write, rename, .none] p).1
    let part := fun kept => (textOf c a).toUTF8.extract 0 kept
    ((∀ name, left.find? name = p.find? name) ↔
      ∀ kept why q, write = .torn kept why →
        p.write (draftName target tag) (part kept) ≠ .ok q) ∧
    ∀ kept why q, write = .torn kept why →
      p.write (draftName target tag) (part kept) = .ok q →
      left.find? (draftName target tag) = some (.file (part kept)) ∧
      ∀ name, name ≠ draftName target tag → left.find? name = p.find? name := by
  intro left part
  have htorn : ∀ kept why q, write = .torn kept why →
      p.write (draftName target tag) (part kept) = .ok q →
      left.find? = Function.update p.find? (draftName target tag) (some (.file (part kept))) := by
    rintro kept why q rfl call
    have hrun := run_torn (s := start target tag (textOf c a)) why rfl call [rename, .none]
    rw [← Place.find?_write call]
    exact congrArg (·.1.find?) hrun
  refine ⟨⟨?_, ?_⟩, ?_⟩
  · intro hsame kept why q hwrite call
    have hdraft := hsame (draftName target tag)
    rw [htorn kept why q hwrite call, Function.update_self, hfree] at hdraft
    cases hdraft
  · intro hwhole name
    rcases run_failed (s := start target tag (textOf c a)) rfl hfree hfail with
      hsame | ⟨kept, why, hwrite, call⟩
    · exact congrFun hsame name
    · exact absurd call (hwhole kept why _ hwrite)
  · intro kept why q hwrite call
    rw [htorn kept why q hwrite call]
    exact ⟨Function.update_self .., fun name hname => Function.update_of_ne hname ..⟩

/-- A save that finds a folder under the name of its target. -/
theorem failed_save_leaves_blocked :
    let p : Place := some ⟨[("plant.ron", .folder)]⟩
    let out := (start "plant.ron" "tmp-1" (textOf Codec.limits .standard)).run
      [.none, .none, .none] p
    p.find? (draftName "plant.ron" "tmp-1") = none ∧
    out.2.result? = some (.error .isFolder) ∧
    ∀ name, out.1.find? name = p.find? name := by
  intro p out
  have hfree : p.find? (draftName "plant.ron" "tmp-1") = none := rfl
  have hfail : out.2.result? = some (.error .isFolder) := rfl
  have hleaves := failed_save_leaves Codec.limits .standard p _ _ hfree .none .none _ hfail
  exact ⟨hfree, hfail, hleaves.1.mpr nofun⟩

/-- Where the disk is full once the first bytes are written, the save fails and leaves
them under the name of the draft. -/
theorem torn_save_leaves_draft :
    let out := (start "plant.ron" "tmp-1" (textOf Codec.limits .standard)).run
      [.torn 4 .noRoom, .none, .none] (some .empty)
    out.2.result? = some (.error .noRoom) ∧
    Place.find? (some .empty) "plant.tmp-1" = none ∧
    out.1.find? "plant.tmp-1" =
      some (.file ((textOf Codec.limits .standard).toUTF8.extract 0 4)) := by
  intro out
  have hdraft : draftName "plant.ron" "tmp-1" = "plant.tmp-1" := by decide
  have htakes : Place.Takes (some .empty) (draftName "plant.ron" "tmp-1") := by
    rw [hdraft]
    exact Place.takes_empty (by decide) (by decide)
  obtain ⟨q, call⟩ := htakes.exists_write ((textOf Codec.limits .standard).toUTF8.extract 0 4)
  have hrun : out = (q, _) :=
    run_torn (s := start "plant.ron" "tmp-1" _) .noRoom rfl call [.none, .none]
  refine ⟨by rw [hrun]; rfl, rfl, ?_⟩
  rw [hrun, ← hdraft]
  exact (congrFun (Place.find?_write call) _).trans (Function.update_self ..)

end Save

end PlantGrammar.Storage
