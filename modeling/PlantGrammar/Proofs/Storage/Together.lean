import PlantGrammar.Proofs.Storage.Save
import PlantGrammar.Proofs.Text.Runs

/-!
# Saves at the same time

Several saves take turns on one disk, each call as a whole. A save whose draft and
target no other save touches runs as it would alone, whosever turn it is. Two saves
that share a draft do not: the second writes over what the first wrote, so the first
publishes the text of the second, and the second finds nothing to publish. Drafts are
named after targets without their extension, so this befalls files that differ in the
extension only.
-/

namespace PlantGrammar.Storage

open Ron

/-! ## Names of drafts -/

namespace Save

theorem span_extension {front extension : String} (h : '.' ∉ extension.toList) :
    (front ++ "." ++ extension).toList.reverse.span (· ≠ '.') =
      (extension.toList.reverse, '.' :: front.toList.reverse) := by
  have hreverse : (front ++ "." ++ extension).toList.reverse =
      extension.toList.reverse ++ '.' :: front.toList.reverse := by
    simp
  rw [hreverse]
  refine Text.span_append (fun c hc => ?_) (by simp)
  have hne : c ≠ '.' := fun hdot => h (hdot ▸ List.mem_reverse.mp hc)
  simpa using hne

/-- The draft of a name with an extension has the tag in its place. -/
theorem draftName_extension {stem extension : String} (tag : String) (hstem : stem ≠ "")
    (hdot : stem ≠ ".") (hextension : '.' ∉ extension.toList) :
    draftName (stem ++ "." ++ extension) tag = stem ++ "." ++ tag := by
  rw [draftName, span_extension hextension]
  split
  next heq =>
    -- all of the stem would be a dot
    obtain ⟨_, hstem'⟩ := Prod.mk.inj heq
    have : stem.toList = ['.'] := by simpa using (List.cons.inj hstem').2
    exact absurd (String.toList_injective this) hdot
  next front _ heq =>
    obtain ⟨_, hfront⟩ := Prod.mk.inj heq
    rw [← (List.cons.inj hfront).2]
    simp [hstem]
  next h => exact absurd rfl (h _ _)

/-- A name of two dots and no other has the folder above for its draft. -/
theorem draftName_twoDots {rest : String} (tag : String) (hrest : '.' ∉ rest.toList) :
    draftName (".." ++ rest) tag = ".." := by
  rw [show ".." ++ rest = "." ++ "." ++ rest from rfl, draftName, span_extension hrest]
  rfl

/-- Such a name can be no file's: the draft is never written. -/
theorem save_twoDots_refused {rest : String} (f : Folder) (tag text : String)
    (hrest : '.' ∉ rest.toList) :
    Place.save (some f) (".." ++ rest) tag text = (some f, .error .isFolder) := by
  have hwrite : Place.write (some f) ".." text.toUTF8 = .error .isFolder := rfl
  have hstep : (start (".." ++ rest) tag text).step .none (some f) =
      (some f, { start (".." ++ rest) tag text with stage := .finished (.error .isFolder) }) := by
    rw [start, draftName_twoDots tag hrest]
    dsimp only [step, stepDraft]
    rw [hwrite]
  have hrun : (start (".." ++ rest) tag text).run [.none, .none, .none] (some f) =
      (some f, { start (".." ++ rest) tag text with stage := .finished (.error .isFolder) }) := by
    rw [run_cons, hstep]
    exact run_finished rfl _
  simp only [Place.save, hrun, result?, Option.get_some]

/-! ## One save among others -/

variable {m : Mishap} {s t : Save} {p q : Place} {stage : Stage}

/-- A step changes what its draft and its target stand for, and no other name. -/
theorem Moves.find?_of_ne (h : Moves m s p q stage) {name : String}
    (hdraft : name ≠ s.draft) (htarget : name ≠ s.target) : q.find? name = p.find? name := by
  cases h with
  | written _ _ call | torn _ _ call =>
    rw [Place.find?_write call, Function.update_of_ne hdraft]
  | published _ _ call =>
    obtain ⟨_, _, hentries⟩ := Place.find?_rename call
    rw [hentries, Function.update_of_ne htarget, Function.update_of_ne hdraft]
  | discarded _ _ call => rw [Place.find?_remove call, Function.update_of_ne hdraft]
  | unwritten | unpublished | undiscarded | idle => rfl

theorem Moves.isSome (h : Moves m s p q stage) (hp : p.isSome) : q.isSome := by
  cases h with
  | written _ _ call | torn _ _ call => exact (Place.takes_of_write call).there
  | published _ _ call => exact (Place.takes_of_rename call).there
  | discarded _ _ call =>
    obtain ⟨_, _, _, _, _, rfl⟩ := Place.remove_eq_ok_iff.mp call
    rfl
  | unwritten | unpublished | undiscarded | idle => exact hp

/-- A save that nothing has disturbed: the files it still has to make can be made, and
those it has made hold its content. -/
def OnTrack (p : Place) (s : Save) : Prop :=
  match s.stage with
  | .draft => p.Takes s.draft ∧ p.Takes s.target
  | .publish =>
    p.Takes s.target ∧ Place.IsName s.draft ∧ p.find? s.draft = some (.file s.content)
  | .discard _ => False
  | .finished result => result = .ok () ∧ p.find? s.target = some (.file s.content)

/-- Its own steps keep a save on track. -/
theorem OnTrack.step (h : OnTrack p s) :
    OnTrack (s.step .none p).1 (s.step .none p).2 := by
  obtain ⟨q, stage, hstep, hmoves⟩ := moves_step .none s p
  rw [hstep]
  cases hmoves with
  | written due _ call =>
    rw [OnTrack, due] at h
    refine ⟨h.2.write call, h.1.isName, ?_⟩
    change q.find? s.draft = _
    rw [Place.find?_write call, Function.update_self]
  | unwritten due call =>
    rw [OnTrack, due] at h
    obtain ⟨q, hq⟩ := h.1.exists_write s.content
    obtain ⟨why, hwhy⟩ := call rfl
    cases hq.symm.trans hwhy
  | torn _ cut _ => cases cut
  | published due _ call =>
    rw [OnTrack, due] at h
    obtain ⟨content, hfile, hentries⟩ := Place.find?_rename call
    cases hfile.symm.trans h.2.2
    exact ⟨rfl, (congrFun hentries _).trans (Function.update_self ..)⟩
  | unpublished due call =>
    rw [OnTrack, due] at h
    obtain ⟨q, hq⟩ := h.1.exists_rename h.2.1 h.2.2
    obtain ⟨why, hwhy⟩ := call rfl
    cases hq.symm.trans hwhy
  | discarded due _ _ | undiscarded due _ =>
    rw [OnTrack, due] at h
    cases h
  | idle due =>
    rw [OnTrack, due] at h
    exact h

/-- Neither of two saves touches a name of the other. -/
structure Apart (s t : Save) : Prop where
  drafts : s.draft ≠ t.draft
  draft_target : s.draft ≠ t.target
  target_draft : s.target ≠ t.draft
  targets : s.target ≠ t.target

/-- A step of a save that is apart from it leaves a save on track. -/
theorem OnTrack.frame (h : OnTrack p s) (hmoves : Moves m t p q stage) (hapart : Apart s t) :
    OnTrack q s := by
  have hdraft : q.find? s.draft = p.find? s.draft :=
    hmoves.find?_of_ne hapart.drafts hapart.draft_target
  have htarget : q.find? s.target = p.find? s.target :=
    hmoves.find?_of_ne hapart.target_draft hapart.targets
  rw [OnTrack] at h ⊢
  split at h
  · have hsome := hmoves.isSome h.1.there
    exact ⟨h.1.of_find? hsome hdraft, h.2.of_find? hsome htarget⟩
  · exact ⟨h.1.of_find? (hmoves.isSome h.1.there) htarget, h.2.1, hdraft.trans h.2.2⟩
  · exact h
  · exact ⟨h.1, htarget.trans h.2⟩

/-! ## Two saves with one draft -/

/-- A save that has failed, or is about to. -/
def Fails (s : Save) : Prop :=
  ∃ cause, s.stage = .discard cause ∨ s.stage = .finished (.error cause)

theorem Fails.step (h : s.Fails) (m : Mishap) (p : Place) : (s.step m p).2.Fails := by
  obtain ⟨q, stage, hstep, hmoves⟩ := moves_step m s p
  rw [hstep]
  obtain ⟨cause, hdue | hdue⟩ := h
  · cases hmoves with
    | discarded _ _ _ | undiscarded _ _ => exact ⟨_, .inr rfl⟩
    | written due | unwritten due | torn due | published due | unpublished due | idle due =>
      rw [hdue] at due
      cases due
  · cases hmoves with
    | idle due => exact ⟨cause, .inr (due.symm.trans hdue)⟩
    | written due | unwritten due | torn due | published due | unpublished due
    | discarded due | undiscarded due =>
      rw [hdue] at due
      cases due

theorem Fails.result?_ne (h : s.Fails) : s.result? ≠ some (.ok ()) := by
  rw [Ne, result?_eq_some_iff]
  obtain ⟨cause, hdue | hdue⟩ := h
  · simp [hdue]
  · simp [hdue]

theorem step_write (due : s.stage = .draft) (call : p.write s.draft s.content = .ok q) :
    s.step .none p = (q, { s with stage := .publish }) := by
  rw [Save.step, due]
  dsimp only
  rw [stepDraft, call]

theorem step_rename (due : s.stage = .publish) (call : p.rename s.draft s.target = .ok q) :
    s.step .none p = (q, { s with stage := .finished (.ok ()) }) := by
  rw [Save.step, due]
  dsimp only
  rw [stepPublish, call]

theorem step_rename_error {cause : Refusal} (due : s.stage = .publish)
    (call : p.rename s.draft s.target = .error cause) :
    s.step .none p = (p, { s with stage := .discard cause }) := by
  rw [Save.step, due]
  dsimp only
  rw [stepPublish, call]

/-- Of two saves with one draft that are written one after the other, the first one to
publish takes the content of the other, which then fails. -/
theorem collide (hs : s.stage = .draft) (ht : t.stage = .draft) (hdraft : s.draft = t.draft)
    (hne : s.draft ≠ s.target) (htakes : p.Takes s.draft ∧ p.Takes s.target) :
    ∃ p₁ p₂ p₃ cause,
      s.step .none p = (p₁, { s with stage := .publish }) ∧
      t.step .none p₁ = (p₂, { t with stage := .publish }) ∧
      step .none p₂ { s with stage := .publish } =
        (p₃, { s with stage := .finished (.ok ()) }) ∧
      step .none p₃ { t with stage := .publish } = (p₃, { t with stage := .discard cause }) ∧
      p₃.find? s.target = some (.file t.content) := by
  obtain ⟨p₁, call₁⟩ := htakes.1.exists_write s.content
  obtain ⟨p₂, call₂⟩ := (htakes.1.write call₁).exists_write t.content
  have hwritten : p₂.find? s.draft = some (.file t.content) := by
    rw [Place.find?_write call₂, Function.update_self]
  obtain ⟨p₃, call₃⟩ := ((htakes.2.write call₁).write call₂).exists_rename
    htakes.1.isName hwritten
  obtain ⟨content, hfile, hentries⟩ := Place.find?_rename call₃
  cases hfile.symm.trans hwritten
  -- publishing took the draft away
  have hgone : p₃.find? t.draft = none := by
    rw [← hdraft, hentries, Function.update_of_ne hne, Function.update_self]
  cases call₄ : p₃.rename t.draft t.target with
  | ok q =>
    obtain ⟨_, hthere, _⟩ := Place.find?_rename call₄
    cases hgone.symm.trans hthere
  | error cause =>
    refine ⟨p₁, p₂, p₃, cause, step_write hs call₁, step_write ht (hdraft ▸ call₂),
      step_rename rfl call₃, step_rename_error rfl call₄, ?_⟩
    rw [hentries, Function.update_self]

/-- A save that publishes under the name of another's draft loses its file when the
other publishes that draft. -/
theorem overrun (hs : s.stage = .draft) (ht : t.stage = .draft)
    (htarget : s.target = t.draft) (hne : t.draft ≠ t.target)
    (htakes : p.Takes s.draft ∧ p.Takes t.draft ∧ p.Takes t.target) :
    ∃ p₁ p₂ p₃ p₄,
      t.step .none p = (p₁, { t with stage := .publish }) ∧
      s.step .none p₁ = (p₂, { s with stage := .publish }) ∧
      step .none p₂ { s with stage := .publish } =
        (p₃, { s with stage := .finished (.ok ()) }) ∧
      step .none p₃ { t with stage := .publish } =
        (p₄, { t with stage := .finished (.ok ()) }) ∧
      p₄.find? s.target = none := by
  obtain ⟨hsDraft, htDraft, htTarget⟩ := htakes
  obtain ⟨p₁, call₁⟩ := htDraft.exists_write t.content
  obtain ⟨p₂, call₂⟩ := (hsDraft.write call₁).exists_write s.content
  obtain ⟨p₃, call₃⟩ := ((htDraft.write call₁).write call₂).exists_rename
    hsDraft.isName (show p₂.find? s.draft = some (.file s.content) by
      rw [Place.find?_write call₂, Function.update_self])
  obtain ⟨content, _, hentries₃⟩ := Place.find?_rename call₃
  obtain ⟨p₄, call₄⟩ := (((htTarget.write call₁).write call₂).rename call₃).exists_rename
    htDraft.isName (show p₃.find? t.draft = some (.file content) by
      rw [hentries₃, Function.update_self])
  obtain ⟨_, _, hentries₄⟩ := Place.find?_rename call₄
  refine ⟨p₁, p₂, p₃, p₄, step_write ht call₁, step_write hs call₂,
    step_rename rfl (htarget ▸ call₃), step_rename rfl call₄, ?_⟩
  rw [htarget, hentries₄, Function.update_of_ne hne, Function.update_self]

end Save

/-! ## Any number of saves -/

/-- A disk and the saves under way on it. -/
structure Desk (ι : Type) where
  place : Place
  saves : ι → Save

namespace Desk

variable {ι : Type} [DecidableEq ι] {d : Desk ι}

/-- One save takes its next step, and the disk does not cut in. -/
def turn (d : Desk ι) (i : ι) : Desk ι :=
  let out := (d.saves i).step .none d.place
  ⟨out.1, Function.update d.saves i out.2⟩

/-- The saves take turns. -/
def run (d : Desk ι) (turns : List ι) : Desk ι := turns.foldl turn d

theorem run_cons (d : Desk ι) (i : ι) (turns : List ι) :
    d.run (i :: turns) = (d.turn i).run turns := rfl

theorem run_append (d : Desk ι) (u v : List ι) : d.run (u ++ v) = (d.run u).run v :=
  List.foldl_append

theorem turn_eq {i : ι} {q : Place} {s : Save}
    (h : (d.saves i).step .none d.place = (q, s)) :
    d.turn i = ⟨q, Function.update d.saves i s⟩ := by
  rw [turn, h]

theorem saves_turn_self (d : Desk ι) (i : ι) :
    (d.turn i).saves i = ((d.saves i).step .none d.place).2 :=
  Function.update_self ..

/-- The other saves wait. -/
theorem saves_turn_of_ne {i j : ι} (h : j ≠ i) : (d.turn i).saves j = d.saves j :=
  Function.update_of_ne h ..

theorem turn_finished {i : ι} {result : Except Refusal Unit}
    (due : (d.saves i).stage = .finished result) : d.turn i = d := by
  have hstep : (d.saves i).step .none d.place = (d.place, d.saves i) := by
    rw [Save.step, due]
  rw [turn_eq hstep, Function.update_eq_self]

/-- Turns change the stages of the saves only. -/
theorem saves_turn (d : Desk ι) (i j : ι) :
    (d.turn i).saves j = { d.saves j with stage := ((d.turn i).saves j).stage } := by
  by_cases hij : j = i
  · subst hij
    obtain ⟨q, stage, hstep, _⟩ := Save.moves_step .none (d.saves j) d.place
    rw [saves_turn_self, hstep]
  · rw [saves_turn_of_ne hij]

theorem saves_run (d : Desk ι) (turns : List ι) (j : ι) :
    (d.run turns).saves j = { d.saves j with stage := ((d.run turns).saves j).stage } := by
  induction turns generalizing d with
  | nil => rfl
  | cons i turns ih => rw [run_cons, ih, saves_turn]

theorem stepsLeft_turn (d : Desk ι) (i j : ι) :
    ((d.turn i).saves j).stepsLeft ≤ (d.saves j).stepsLeft - [i].count j := by
  by_cases hij : j = i
  · subst hij
    rw [saves_turn_self, List.count_singleton_self]
    exact Save.stepsLeft_step ..
  · rw [saves_turn_of_ne hij]
    simp [Ne.symm hij]

theorem stepsLeft_run (d : Desk ι) (turns : List ι) (j : ι) :
    ((d.run turns).saves j).stepsLeft ≤ (d.saves j).stepsLeft - turns.count j := by
  induction turns generalizing d with
  | nil => exact Nat.le_refl _
  | cons i turns ih =>
    have hfirst := stepsLeft_turn d i j
    have hrest := ih (d.turn i)
    rw [run_cons, List.count_cons]
    rw [List.count_singleton] at hfirst
    omega

theorem fails_turn {j : ι} (h : (d.saves j).Fails) (i : ι) : ((d.turn i).saves j).Fails := by
  by_cases hij : j = i
  · subst hij
    rw [saves_turn_self]
    exact h.step .none d.place
  · rwa [saves_turn_of_ne hij]

theorem fails_run {j : ι} (h : (d.saves j).Fails) (turns : List ι) :
    ((d.run turns).saves j).Fails := by
  induction turns generalizing d with
  | nil => exact h
  | cons i turns ih => exact ih (fails_turn h i)

/-- All saves are on track, and no two of them share a name. -/
structure Orderly (d : Desk ι) : Prop where
  onTrack : ∀ i, (d.saves i).OnTrack d.place
  apart : ∀ i j, i ≠ j → (d.saves i).Apart (d.saves j)

theorem Orderly.turn (h : d.Orderly) (i : ι) : (d.turn i).Orderly := by
  constructor
  · intro j
    by_cases hij : j = i
    · subst hij
      rw [saves_turn_self]
      exact (h.onTrack j).step
    · obtain ⟨q, stage, hstep, hmoves⟩ := Save.moves_step .none (d.saves i) d.place
      rw [saves_turn_of_ne hij, turn_eq hstep]
      exact (h.onTrack j).frame hmoves (h.apart j i hij)
  · intro j k hjk
    rw [saves_turn d i j, saves_turn d i k]
    exact ⟨(h.apart j k hjk).drafts, (h.apart j k hjk).draft_target,
      (h.apart j k hjk).target_draft, (h.apart j k hjk).targets⟩

theorem Orderly.run (h : d.Orderly) (turns : List ι) : (d.run turns).Orderly := by
  induction turns generalizing d with
  | nil => exact h
  | cons i turns ih => exact ih (h.turn i)

/-- In any order of turns, a save that has had enough of them has ended well, and its
file holds its content. -/
theorem Orderly.finished (h : d.Orderly) {turns : List ι} {i : ι}
    (hturns : (d.saves i).stepsLeft ≤ turns.count i) :
    ((d.run turns).saves i).result? = some (.ok ()) ∧
      (d.run turns).place.find? (d.saves i).target = some (.file (d.saves i).content) := by
  have hleft : ((d.run turns).saves i).stepsLeft = 0 := by
    have := stepsLeft_run d turns i
    omega
  obtain ⟨result, hresult⟩ :=
    Option.isSome_iff_exists.mp ((Save.isSome_result?_iff _).mpr hleft)
  have htrack := (h.run turns).onTrack i
  rw [Save.OnTrack, Save.result?_eq_some_iff.mp hresult] at htrack
  obtain ⟨rfl, hfile⟩ := htrack
  rw [saves_run] at hfile
  exact ⟨hresult, hfile⟩

/-- Of two saves with one draft, one can publish the content of the other, which then
fails. -/
theorem mix {i j : ι} (hij : i ≠ j) (hi : (d.saves i).stage = .draft)
    (hj : (d.saves j).stage = .draft) (hdraft : (d.saves i).draft = (d.saves j).draft)
    (hne : (d.saves i).draft ≠ (d.saves i).target)
    (htakes : d.place.Takes (d.saves i).draft ∧ d.place.Takes (d.saves i).target) :
    ((d.run [i, j, i, j]).saves i).result? = some (.ok ()) ∧
    (d.run [i, j, i, j]).place.find? (d.saves i).target =
      some (.file (d.saves j).content) ∧
    ((d.run [i, j, i, j]).saves j).Fails := by
  obtain ⟨p₁, p₂, p₃, cause, h₁, h₂, h₃, h₄, hfile⟩ := Save.collide hi hj hdraft hne htakes
  have hrun : d.run [i, j, i, j] = ⟨p₃, Function.update (Function.update d.saves i
      { d.saves i with stage := .finished (.ok ()) }) j
      { d.saves j with stage := .discard cause }⟩ := by
    rw [run_cons, turn_eq h₁, run_cons, turn_eq (by simpa [hij.symm] using h₂), run_cons,
      turn_eq (by simpa [hij] using h₃), run_cons, turn_eq (by simpa [hij.symm] using h₄)]
    simp only [Function.update_comm hij, Function.update_idem]
    rfl
  rw [hrun]
  refine ⟨?_, hfile, ?_⟩
  · dsimp only
    rw [Function.update_of_ne hij, Function.update_self]
    rfl
  · dsimp only
    rw [Function.update_self]
    exact ⟨cause, .inl rfl⟩

/-- What fails so fails whatever follows. -/
theorem mix_result?_ne {i j : ι} (hij : i ≠ j) (hi : (d.saves i).stage = .draft)
    (hj : (d.saves j).stage = .draft) (hdraft : (d.saves i).draft = (d.saves j).draft)
    (hne : (d.saves i).draft ≠ (d.saves i).target)
    (htakes : d.place.Takes (d.saves i).draft ∧ d.place.Takes (d.saves i).target) :
    ((d.run [i, j, i, j, j, i]).saves j).result? ≠ some (.ok ()) := by
  obtain ⟨_, _, hfails⟩ := mix hij hi hj hdraft hne htakes
  rw [show [i, j, i, j, j, i] = [i, j, i, j] ++ [j, i] from rfl, run_append]
  exact (fails_run hfails [j, i]).result?_ne

/-- A save that publishes under the name of another's draft can lose its file. -/
theorem lose {i j : ι} (hij : i ≠ j) (hi : (d.saves i).stage = .draft)
    (hj : (d.saves j).stage = .draft) (htarget : (d.saves i).target = (d.saves j).draft)
    (hne : (d.saves j).draft ≠ (d.saves j).target)
    (htakes : d.place.Takes (d.saves i).draft ∧ d.place.Takes (d.saves j).draft ∧
      d.place.Takes (d.saves j).target) :
    (d.run [j, i, i, j, i, j]).place.find? (d.saves i).target = none := by
  obtain ⟨p₁, p₂, p₃, p₄, h₁, h₂, h₃, h₄, hfile⟩ := Save.overrun hi hj htarget hne htakes
  have hrun : d.run [j, i, i, j] = ⟨p₄, Function.update (Function.update d.saves i
      { d.saves i with stage := .finished (.ok ()) }) j
      { d.saves j with stage := .finished (.ok ()) }⟩ := by
    rw [run_cons, turn_eq h₁, run_cons, turn_eq (by simpa [hij] using h₂), run_cons,
      turn_eq (by simpa [hij] using h₃), run_cons, turn_eq (by simpa [hij.symm] using h₄)]
    simp only [Function.update_comm hij, Function.update_idem]
    rfl
  have hdone : ∀ k ∈ [i, j], ((d.run [j, i, i, j]).saves k).stage = .finished (.ok ()) := by
    simp [hrun, hij]
  -- both have ended, so their last turns change nothing
  have hrest : d.run ([j, i, i, j] ++ [i, j]) = d.run [j, i, i, j] := by
    rw [run_append, run_cons, turn_finished (hdone i (by simp)), run_cons,
      turn_finished (hdone j (by simp))]
    rfl
  rw [show [j, i, i, j, i, j] = [j, i, i, j] ++ [i, j] from rfl, hrest, hrun]
  exact hfile

/-- Saves to two files that both end well, each with its own content, in every order of
turns that lets them finish, share no name. -/
theorem apart_of_endWell {i j : ι} (hij : i ≠ j) (hi : (d.saves i).stage = .draft)
    (hj : (d.saves j).stage = .draft) (hne : (d.saves i).target ≠ (d.saves j).target)
    (htakes : ∀ k ∈ [i, j], d.place.Takes (d.saves k).draft ∧ d.place.Takes (d.saves k).target)
    (hwell : ∀ turns : List ι, 3 ≤ turns.count i → 3 ≤ turns.count j →
      ∀ k ∈ [i, j], ((d.run turns).saves k).result? = some (.ok ()) ∧
        (d.run turns).place.find? (d.saves k).target = some (.file (d.saves k).content)) :
    (d.saves i).Apart (d.saves j) := by
  obtain ⟨hi', hj'⟩ : _ ∧ _ := ⟨htakes i (by simp), htakes j (by simp)⟩
  have hcount : ∀ turns ∈ [[i, j, i, j, j, i], [j, i, j, i, i, j], [j, i, i, j, i, j],
      [i, j, j, i, j, i]], 3 ≤ turns.count i ∧ 3 ≤ turns.count j := by
    simp [hij, hij.symm]
  have hwell : ∀ turns ∈ _, ∀ k ∈ [i, j], _ := fun turns h =>
    hwell turns (hcount turns h).1 (hcount turns h).2
  refine ⟨fun hdrafts => ?_, fun hcross => ?_, fun hcross => ?_, hne⟩
  · -- one of them does not write where it publishes: that one publishes first
    by_cases hfirst : (d.saves i).draft = (d.saves i).target
    · have hsecond : (d.saves j).draft ≠ (d.saves j).target := fun h =>
        hne (hfirst.symm.trans (hdrafts.trans h))
      exact mix_result?_ne hij.symm hj hi hdrafts.symm hsecond hj'
        (hwell _ (by simp) i (by simp)).1
    · exact mix_result?_ne hij hi hj hdrafts hfirst hi' (hwell _ (by simp) j (by simp)).1
  · have hlost := lose hij.symm hj hi hcross.symm (fun h => hne (h.symm.trans hcross))
      ⟨hj'.1, hi'⟩
    exact Option.some_ne_none _ ((hwell _ (by simp) j (by simp)).2.symm.trans hlost)
  · have hlost := lose hij hi hj hcross (fun h => hne (hcross.trans h)) ⟨hi'.1, hj'⟩
    exact Option.some_ne_none _ ((hwell _ (by simp) i (by simp)).2.symm.trans hlost)

end Desk

/-! ## Two saves -/

/-- Which of two saves takes its turn. -/
inductive Caller where
  | first
  | second
deriving DecidableEq

/-- Two saves on one disk. -/
def Desk.ofTwo (p : Place) (s t : Save) : Desk Caller where
  place := p
  saves
    | .first => s
    | .second => t

open Save in
/-- Two files of one stem have one draft: the save that publishes first publishes what the
other wrote, and the other fails. -/
theorem saves_of_one_stem_mix {stem extension extension' tag : String} {p : Place}
    (text text' : String) (hstem : stem ≠ "") (hdot : stem ≠ ".")
    (hextension : '.' ∉ extension.toList) (hextension' : '.' ∉ extension'.toList)
    (htag : stem ++ "." ++ tag ≠ stem ++ "." ++ extension)
    (htakes : p.Takes (stem ++ "." ++ tag) ∧ p.Takes (stem ++ "." ++ extension)) :
    let out := (Desk.ofTwo p (start (stem ++ "." ++ extension) tag text)
      (start (stem ++ "." ++ extension') tag text')).run [.first, .second, .first, .second]
    (out.saves .first).result? = some (.ok ()) ∧
    out.place.find? (stem ++ "." ++ extension) = some (.file text'.toUTF8) ∧
    (out.saves .second).Fails := by
  have hdraft := draftName_extension tag hstem hdot hextension
  have hdraft' := draftName_extension tag hstem hdot hextension'
  rw [← hdraft] at htag htakes
  exact Desk.mix (by decide) rfl rfl (hdraft.trans hdraft'.symm) htag htakes

open Save in
/-- **Saves at the same time keep apart iff they share no name.** Two values are saved to
two files of one folder that takes files under all the names involved. Both saves end
well, each file with the complete text of its own value, in every order of their calls,
iff their drafts have different names and neither file bears the name of the other's
draft. -/
theorem saves_keep_apart_iff {α β : Type} (c : Codec α) (a : α) (c' : Codec β) (b : β)
    (p : Place) (first second tag : String) (hne : first ≠ second)
    (htakes : ∀ name ∈ [first, second, draftName first tag, draftName second tag],
      p.Takes name) :
    (∀ turns : List Caller, 3 ≤ turns.count .first → 3 ≤ turns.count .second →
      let out := (Desk.ofTwo p (start first tag (textOf c a))
        (start second tag (textOf c' b))).run turns
      (out.saves .first).result? = some (.ok ()) ∧
      (out.saves .second).result? = some (.ok ()) ∧
      out.place.find? first = some (.file (textOf c a).toUTF8) ∧
      out.place.find? second = some (.file (textOf c' b).toUTF8)) ↔
    draftName first tag ≠ draftName second tag ∧ draftName first tag ≠ second ∧
      first ≠ draftName second tag := by
  simp only [List.forall_mem_cons, List.not_mem_nil, false_implies, implies_true,
    and_true] at htakes
  obtain ⟨htakes₁, htakes₂, htakesDraft₁, htakesDraft₂⟩ := htakes
  constructor
  · intro hall
    have hapart := Desk.apart_of_endWell (d := Desk.ofTwo p (start first tag (textOf c a))
        (start second tag (textOf c' b))) (i := .first) (j := .second) (by decide) rfl rfl hne
      (by simpa [Desk.ofTwo, start] using ⟨⟨htakesDraft₁, htakes₁⟩, htakesDraft₂, htakes₂⟩)
      (fun turns hturns₁ hturns₂ => by
        obtain ⟨hdone₁, hdone₂, hfile₁, hfile₂⟩ := hall turns hturns₁ hturns₂
        rintro k hk
        cases k with
        | first => exact ⟨hdone₁, hfile₁⟩
        | second => exact ⟨hdone₂, hfile₂⟩)
    exact ⟨hapart.drafts, hapart.draft_target, hapart.target_draft⟩
  · rintro ⟨hdrafts, hcross₁, hcross₂⟩ turns hturns₁ hturns₂
    have horderly : (Desk.ofTwo p (start first tag (textOf c a))
        (start second tag (textOf c' b))).Orderly := by
      constructor
      · rintro (_ | _)
        · exact ⟨htakesDraft₁, htakes₁⟩
        · exact ⟨htakesDraft₂, htakes₂⟩
      · rintro (_ | _) (_ | _) hij
        · exact absurd rfl hij
        · exact ⟨hdrafts, hcross₁, hcross₂, hne⟩
        · exact ⟨hdrafts.symm, hcross₂.symm, hcross₁.symm, hne.symm⟩
        · exact absurd rfl hij
    obtain ⟨hdone₁, hfile₁⟩ := horderly.finished (i := .first) hturns₁
    obtain ⟨hdone₂, hfile₂⟩ := horderly.finished (i := .second) hturns₂
    exact ⟨hdone₁, hdone₂, hfile₁, hfile₂⟩

/-- Two files with different stems, in an empty folder. -/
theorem saves_keep_apart_stems :
    (∀ name ∈ ["plant.ron", "weed.ron", Save.draftName "plant.ron" "tmp-1",
      Save.draftName "weed.ron" "tmp-1"], Place.Takes (some .empty) name) ∧
    ∀ turns : List Caller, 3 ≤ turns.count .first → 3 ≤ turns.count .second →
      let out := (Desk.ofTwo (some .empty)
        (Save.start "plant.ron" "tmp-1" (textOf Codec.limits .standard))
        (Save.start "weed.ron" "tmp-1" (textOf Codec.limits .unbounded))).run turns
      (out.saves .first).result? = some (.ok ()) ∧
      (out.saves .second).result? = some (.ok ()) ∧
      out.place.find? "plant.ron" = some (.file (textOf Codec.limits .standard).toUTF8) ∧
      out.place.find? "weed.ron" = some (.file (textOf Codec.limits .unbounded).toUTF8) := by
  have htakes : ∀ name ∈ ["plant.ron", "weed.ron", Save.draftName "plant.ron" "tmp-1",
      Save.draftName "weed.ron" "tmp-1"], Place.Takes (some .empty) name := by
    have hnames : ∀ name ∈ ["plant.ron", "weed.ron", Save.draftName "plant.ron" "tmp-1",
        Save.draftName "weed.ron" "tmp-1"], Place.IsName name ∧ ¬ Folder.isLink name := by decide
    intro name hname
    exact Place.takes_empty (hnames name hname).1 (hnames name hname).2
  exact ⟨htakes, (saves_keep_apart_iff Codec.limits .standard Codec.limits .unbounded
    (some .empty) "plant.ron" "weed.ron" "tmp-1" (by decide) htakes).mpr (by decide)⟩

/-- A plant and its picture, saved at the same time: the file of the plant holds the text
of the picture, and the picture is not saved at all. A file of two leading dots is not
saved even when no other is. -/
theorem plant_and_picture_mix :
    let out := (Desk.ofTwo (some .empty)
      (Save.start "plant.ron" "tmp-1" (textOf Codec.limits .standard))
      (Save.start "plant.svg" "tmp-1" (textOf Codec.limits .unbounded))).run
        [.first, .second, .first, .second, .second, .first]
    (out.saves .first).result? = some (.ok ()) ∧
    (out.saves .second).result? = some (.error .notFound) ∧
    out.place.find? "plant.ron" = some (.file (textOf Codec.limits .unbounded).toUTF8) ∧
    textOf Codec.limits .unbounded ≠ textOf Codec.limits .standard ∧
    out.place.find? "plant.svg" = none ∧
    (saveValue Codec.limits .standard (some .empty) "..x" "tmp-1").2 =
      .error (.storage .isFolder) := by
  intro out
  exact ⟨rfl, rfl, rfl, by decide, rfl, rfl⟩

end PlantGrammar.Storage
