import PlantGrammar.Storage.Folder

/-!
# Saving a file

A file is saved in three steps, so that no reader ever finds half of it under its
name: the content goes into a draft beside the file, the draft takes the file's
name, and where that is refused the draft is removed. `Save.step` carries out the
step that is due, on a disk that may cut in with a mishap of its own.
-/

namespace PlantGrammar.Storage

/-- The step of a save that is due. -/
inductive Stage where
  /-- Write the draft. -/
  | draft
  /-- Give the draft the file's name. -/
  | publish
  /-- Remove the draft, because its renaming was refused. -/
  | discard (cause : Refusal)
  /-- Nothing is left to do. -/
  | finished (result : Except Refusal Unit)

/-- A file on its way to the disk. -/
structure Save where
  target : String
  draft : String
  content : ByteArray
  stage : Stage

/-- What the disk does to one call beyond the rules of folders. -/
inductive Mishap where
  | none
  /-- The call fails and changes nothing. -/
  | refused (cause : Refusal)
  /-- The call fails; one that writes leaves a file with the first `kept` bytes
  behind. -/
  | torn (kept : Nat) (cause : Refusal)

namespace Save

/-- The name of the draft of a file: the extension gives way to a tag. A dot in
front belongs to the name and begins no extension. Where the extension leaves two
dots, these lead to the folder above, which takes no tag. -/
def draftName (target tag : String) : String :=
  match target.toList.reverse.span (· ≠ '.') with
  | (_, ['.', '.']) => ".."
  | (_, '.' :: before) =>
    (if before.isEmpty then target else String.ofList before.reverse) ++ "." ++ tag
  | _ => target ++ "." ++ tag

/-- A save that has not begun. -/
def start (target tag text : String) : Save := ⟨target, draftName target tag, text.toUTF8, .draft⟩

/-- The draft is written. -/
def stepDraft (m : Mishap) (p : Place) (s : Save) : Place × Save :=
  match m with
  | .none =>
    match p.write s.draft s.content with
    | .ok p => (p, { s with stage := .publish })
    | .error cause => (p, { s with stage := .finished (.error cause) })
  | .refused cause => (p, { s with stage := .finished (.error cause) })
  | .torn kept cause =>
    match p.write s.draft (s.content.extract 0 kept) with
    | .ok p => (p, { s with stage := .finished (.error cause) })
    | .error cause => (p, { s with stage := .finished (.error cause) })

/-- The draft takes the file's name. -/
def stepPublish (m : Mishap) (p : Place) (s : Save) : Place × Save :=
  match m with
  | .none =>
    match p.rename s.draft s.target with
    | .ok p => (p, { s with stage := .finished (.ok ()) })
    | .error cause => (p, { s with stage := .discard cause })
  | .refused cause | .torn _ cause => (p, { s with stage := .discard cause })

/-- The draft is removed; the save fails for the cause that stopped it before,
whether or not the removal succeeds. -/
def stepDiscard (m : Mishap) (p : Place) (s : Save) (cause : Refusal) : Place × Save :=
  let finished := { s with stage := .finished (.error cause) }
  match m with
  | .none =>
    match p.remove s.draft with
    | .ok p => (p, finished)
    | .error _ => (p, finished)
  | .refused _ | .torn _ _ => (p, finished)

/-- Carries out the step that is due. -/
def step (m : Mishap) (p : Place) (s : Save) : Place × Save :=
  match s.stage with
  | .draft => s.stepDraft m p
  | .publish => s.stepPublish m p
  | .discard cause => s.stepDiscard m p cause
  | .finished _ => (p, s)

/-- Carries out one step per mishap. -/
def run (ms : List Mishap) (p : Place) (s : Save) : Place × Save :=
  ms.foldl (fun (p, s) m => s.step m p) (p, s)

/-- How the save ended, if it has. -/
def result? (s : Save) : Option (Except Refusal Unit) :=
  match s.stage with
  | .finished result => some result
  | _ => none

/-- How many steps a save may still take. -/
def stepsLeft (s : Save) : Nat :=
  match s.stage with
  | .draft => 3
  | .publish => 2
  | .discard _ => 1
  | .finished _ => 0

theorem stepsLeft_step (m : Mishap) (p : Place) (s : Save) :
    (s.step m p).2.stepsLeft ≤ s.stepsLeft - 1 := by
  cases h : s.stage with
  | draft | publish | discard =>
    simp only [step, h, stepDraft, stepPublish, stepDiscard]
    repeat' split
    all_goals simp [stepsLeft, h]
  | finished => simp [step, stepsLeft, h]

theorem run_cons (m : Mishap) (ms : List Mishap) (p : Place) (s : Save) :
    s.run (m :: ms) p = (s.step m p).2.run ms (s.step m p).1 := rfl

theorem stepsLeft_run (ms : List Mishap) (p : Place) (s : Save) :
    (s.run ms p).2.stepsLeft ≤ s.stepsLeft - ms.length := by
  induction ms generalizing p s with
  | nil => simp [run]
  | cons m ms ih =>
    have first := stepsLeft_step m p s
    have rest := ih (s.step m p).1 (s.step m p).2
    rw [run_cons, List.length_cons]
    omega

theorem isSome_result?_iff (s : Save) : s.result?.isSome ↔ s.stepsLeft = 0 := by
  cases h : s.stage <;> simp [result?, stepsLeft, h]

/-- Three steps end every save, whatever the disk does. -/
theorem isSome_result?_run (a b c : Mishap) (p : Place) (target tag text : String) :
    ((start target tag text).run [a, b, c] p).2.result?.isSome := by
  have := stepsLeft_run [a, b, c] p (start target tag text)
  rw [isSome_result?_iff]
  simpa [start, stepsLeft] using this

end Save

/-- Saves a text under a name, on a disk without mishaps. -/
def Place.save (p : Place) (name tag text : String) : Place × Except Refusal Unit :=
  let run := (Save.start name tag text).run [.none, .none, .none] p
  (run.1, run.2.result?.get (Save.isSome_result?_run ..))

end PlantGrammar.Storage
