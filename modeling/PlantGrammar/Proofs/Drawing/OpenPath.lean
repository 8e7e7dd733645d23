import PlantGrammar.Proofs.Drawing.Replay

/-!
# Where a command is drawn

A canvas saves and restores its transform, but where a command is drawn can be
said without a stack: it is the product of the steps before it, from left to
right, without those inside a group that has been closed by then. A `pop` that
closes nothing and a `push` that is never closed make no group.

The proof keeps the whole stack in view. The transform saved with `level` groups
open is the product of the open steps taken with at most `level` groups open, and
the present transform is the top of the same list.
-/

namespace PlantGrammar

variable {α : Type} [Scalar α]

/-- How a command moves the transform, if it does. -/
def Command.step? : Command α → Option (Transform α)
  | .branch _ length _ => some (Transform.advance length)
  | .rotate radians => some (Transform.rotate radians)
  | _ => none

/-- What a command paints at a transform, if it does. -/
def Command.shape? (m : Transform α) : Command α → Option (Shape α)
  | .branch width length color =>
    some ⟨.branch, (Outline.branch width length).transform m, color, Scalar.ofInt 1⟩
  | .leaf width length color alpha =>
    some ⟨.leaf, (Outline.leaf width length).transform m, color, alpha⟩
  | _ => none

/-- The steps of the commands, without those at hidden positions. -/
def stepsOutside (hidden : Nat → Prop) [DecidablePred hidden]
    (commands : List (Command α)) : List (Transform α) :=
  commands.zipIdx.filterMap fun (command, i) => if hidden i then none else command.step?

/-- The steps of the commands that lie in no closed group. -/
def openSteps (commands : List (Command α)) : List (Transform α) :=
  stepsOutside (Bracket.Enclosed (commands.map Bracket.ofCommand)) commands

/-- Where commands lead from a transform: the product of their open steps. -/
def place (m : Transform α) (commands : List (Command α)) : Transform α :=
  (openSteps commands).foldl (· * ·) m

/-! ## Hiding steps -/

/-- Only commands that open and close nothing move the transform. -/
theorem Command.ofCommand_of_step? {command : Command α} {m : Transform α}
    (h : command.step? = some m) : Bracket.ofCommand command = .plain := by
  cases command with
  | branch width length color => rfl
  | rotate radians => rfl
  | push => cases h
  | pop => cases h
  | leaf width length color alpha => cases h

/-- What is hidden matters only where a command opens and closes nothing. -/
theorem stepsOutside_congr {hidden hidden' : Nat → Prop} [DecidablePred hidden]
    [DecidablePred hidden'] {commands : List (Command α)}
    (h : ∀ i, (commands.map Bracket.ofCommand)[i]? = some .plain →
      (hidden i ↔ hidden' i)) :
    stepsOutside hidden commands = stepsOutside hidden' commands := by
  refine List.filterMap_congr fun (command, i) hmem => ?_
  have hi : commands[i]? = some command := List.mem_zipIdx_iff_getElem?.mp hmem
  show (if hidden i then none else command.step?)
    = (if hidden' i then none else command.step?)
  cases hstep : command.step? with
  | none => rw [ite_self, ite_self]
  | some m =>
    have hplain : (commands.map Bracket.ofCommand)[i]? = some .plain := by
      rw [List.getElem?_map, hi, Option.map_some, Command.ofCommand_of_step? hstep]
    exact if_congr (h i hplain) rfl rfl

/-- The last command stands at the position that the others have reached. -/
theorem stepsOutside_concat (hidden : Nat → Prop) [DecidablePred hidden]
    (commands : List (Command α)) (command : Command α) :
    stepsOutside hidden (commands ++ [command]) = stepsOutside hidden commands ++
      if hidden commands.length then [] else command.step?.toList := by
  rw [stepsOutside, List.zipIdx_append, List.filterMap_append, Nat.zero_add,
    List.zipIdx_singleton, ← stepsOutside]
  by_cases hlast : hidden commands.length
  · simp [hlast]
  · cases hstep : command.step? <;> simp [hlast, hstep]

/-! ## One level of the stack -/

/-- The open steps that were taken with at most `level` groups open. -/
def openStepsBelow (level : Nat) (commands : List (Command α)) : List (Transform α) :=
  stepsOutside (fun i => Bracket.Enclosed (commands.map Bracket.ofCommand) i ∨
    level < openPushes (commands.take i)) commands

/-- At the present depth and above it the bound says nothing. -/
theorem openStepsBelow_of_depth_le {commands : List (Command α)} {level : Nat}
    (hlevel : openPushes commands ≤ level) :
    openStepsBelow level commands = openSteps commands := by
  rw [openStepsBelow, openSteps]
  refine stepsOutside_congr fun i hi => ⟨?_, Or.inl⟩
  rintro (henclosed | habove)
  · exact henclosed
  · by_contra henclosed
    have hdepth := Bracket.depth_take_le hi henclosed
    rw [← List.map_take, ← openPushes, ← openPushes] at hdepth
    omega

/-- One more command adds its step to the levels that reach the present depth. What
it closes lies above every level that is left. -/
theorem openStepsBelow_concat {commands : List (Command α)} {command : Command α}
    {level : Nat} (hlevel : level ≤ Bracket.step (openPushes commands)
      (Bracket.ofCommand command)) :
    openStepsBelow level (commands ++ [command]) = openStepsBelow level commands ++
      if level < openPushes commands then []
      else command.step?.toList := by
  have hdepth := openPushes_concat commands command
  rw [openPushes, List.map_append, List.map_singleton] at hdepth
  rw [openStepsBelow, stepsOutside_concat, List.map_append, List.map_singleton]
  congr 1
  · refine stepsOutside_congr fun i hi => ?_
    obtain ⟨hlt, -⟩ := List.getElem?_eq_some_iff.mp hi
    rw [List.length_map] at hlt
    rw [Bracket.enclosed_concat_iff hi, hdepth, ← List.map_take, ← openPushes,
      List.take_append_of_le_length (Nat.le_of_lt hlt)]
    constructor
    · rintro ((henclosed | hcut) | habove)
      · exact .inl henclosed
      · exact .inr (by omega)
      · exact .inr habove
    · rintro (henclosed | habove)
      · exact .inl (.inl henclosed)
      · exact .inr habove
  · have hlast := Bracket.not_enclosed_last (commands.map Bracket.ofCommand)
      (Bracket.ofCommand command)
    rw [List.length_map] at hlast
    refine if_congr ?_ rfl rfl
    rw [List.take_left]
    exact or_iff_right hlast

/-- Where the canvas stood when the group at `level` was opened; at the present depth,
where it stands. -/
def placeBelow (m : Transform α) (level : Nat) (commands : List (Command α)) :
    Transform α :=
  (openStepsBelow level commands).foldl (· * ·) m

theorem placeBelow_of_depth_le (m : Transform α) {commands : List (Command α)}
    {level : Nat} (hlevel : openPushes commands ≤ level) :
    placeBelow m level commands = place m commands := by
  rw [placeBelow, openStepsBelow_of_depth_le hlevel, place]

/-- A command moves the present place by its step and leaves the levels below. -/
theorem placeBelow_concat (m : Transform α) {commands : List (Command α)}
    {command : Command α} {level : Nat}
    (hlevel : level ≤ Bracket.step (openPushes commands)
      (Bracket.ofCommand command)) :
    placeBelow m level (commands ++ [command]) =
      if level < openPushes commands then
        placeBelow m level commands
      else (command.step?.toList).foldl (· * ·) (place m commands) := by
  rw [placeBelow, openStepsBelow_concat hlevel, List.foldl_append, ← placeBelow]
  by_cases hbelow : level < openPushes commands
  · rw [if_pos hbelow, if_pos hbelow, List.foldl_nil]
  · rw [if_neg hbelow, if_neg hbelow, placeBelow_of_depth_le m (Nat.le_of_not_lt hbelow)]

/-! ## The whole stack -/

/-- The places at the levels below `count`, the innermost first. -/
def placesBelow (m : Transform α) (count : Nat) (commands : List (Command α)) :
    List (Transform α) :=
  ((List.range count).map (placeBelow m · commands)).reverse

theorem placesBelow_succ (m : Transform α) (count : Nat) (commands : List (Command α)) :
    placesBelow m (count + 1) commands =
      placeBelow m count commands :: placesBelow m count commands := by
  simp [placesBelow, List.range_succ]

/-- The levels that were open before a command and still are keep their places. -/
theorem placesBelow_concat (m : Transform α) {commands : List (Command α)}
    {command : Command α} {count : Nat}
    (hbefore : count ≤ openPushes commands)
    (hafter : count ≤ Bracket.step (openPushes commands)
      (Bracket.ofCommand command)) :
    placesBelow m count (commands ++ [command]) = placesBelow m count commands := by
  rw [placesBelow, placesBelow]
  refine congrArg List.reverse (List.map_congr_left fun level hlevel => ?_)
  rw [List.mem_range] at hlevel
  rw [placeBelow_concat m (Nat.le_trans (Nat.le_of_lt hlevel) hafter),
    if_pos (Nat.lt_of_lt_of_le hlevel hbefore)]

/-- A command that does not lower the depth moves the place by its step. -/
theorem place_concat (m : Transform α) {commands : List (Command α)} {command : Command α}
    (hdepth : openPushes commands ≤
      Bracket.step (openPushes commands)
        (Bracket.ofCommand command)) :
    place m (commands ++ [command]) =
      (command.step?.toList).foldl (· * ·) (place m commands) := by
  have hconcat := Nat.le_of_eq (openPushes_concat commands command)
  rw [← placeBelow_of_depth_le m hconcat, placeBelow_concat m (Nat.le_refl _),
    if_neg (Nat.not_lt.mpr hdepth)]

/-- A canvas that has replayed some commands stands at their place and remembers the
places of the groups that are open. -/
structure Canvas.Follows (m : Transform α) (commands : List (Command α)) (c : Canvas α) :
    Prop where
  transform : c.transform = place m commands
  saved : c.saved =
    placesBelow m (openPushes commands) commands

namespace Canvas

/-- A command that opens and closes nothing moves the transform by its step. -/
theorem draw_plain (c : Canvas α) {command : Command α}
    (hmark : Bracket.ofCommand command = .plain) :
    (c.draw command).transform = (command.step?.toList).foldl (· * ·) c.transform ∧
      (c.draw command).saved = c.saved := by
  cases command with
  | branch width length color => exact ⟨rfl, rfl⟩
  | rotate radians => exact ⟨rfl, rfl⟩
  | push => cases hmark
  | pop => cases hmark
  | leaf width length color alpha => exact ⟨rfl, rfl⟩

namespace Follows

variable {m : Transform α} {commands : List (Command α)} {c : Canvas α}

theorem plain (h : Follows m commands c) {command : Command α}
    (hmark : Bracket.ofCommand command = .plain) :
    Follows m (commands ++ [command]) (c.draw command) := by
  obtain ⟨htransform, hsaved⟩ := draw_plain c hmark
  have hdepth := openPushes_concat commands command
  rw [hmark, Bracket.step] at hdepth
  constructor
  · rw [htransform, h.transform, place_concat]
    rw [hmark, Bracket.step]
  · rw [hsaved, h.saved, hdepth, placesBelow_concat m (Nat.le_refl _)]
    rw [hmark, Bracket.step]

theorem push (h : Follows m commands c) :
    Follows m (commands ++ [.push]) (c.draw .push) := by
  have hdepth := openPushes_concat commands .push
  rw [Bracket.ofCommand, Bracket.step] at hdepth
  have hplace : place m (commands ++ [.push]) = place m commands :=
    place_concat m (Nat.le_succ _)
  constructor
  · rw [hplace]
    exact h.transform
  · -- the new level is the place that the push has left as it was
    rw [hdepth, placesBelow_succ, placeBelow_concat m (Nat.le_succ _),
      if_neg (Nat.lt_irrefl _), placesBelow_concat m (Nat.le_refl _) (Nat.le_succ _)]
    exact congrArg₂ List.cons h.transform h.saved

theorem pop (h : Follows m commands c) :
    Follows m (commands ++ [.pop]) (c.draw .pop) := by
  have hdepth := openPushes_concat commands .pop
  rw [Bracket.ofCommand, Bracket.step] at hdepth
  have hsaved := h.saved
  cases hopen : openPushes commands with
  | zero =>
    rw [hopen] at hsaved hdepth
    have hsame : c.draw .pop = c := by simp only [draw, hsaved, placesBelow]; rfl
    rw [hsame]
    constructor
    · rw [h.transform, place_concat]
      · rfl
      · rw [hopen]
        exact Nat.zero_le _
    · rw [hdepth]
      exact hsaved
  | succ level =>
    rw [hopen] at hsaved hdepth
    rw [placesBelow_succ] at hsaved
    have hback : c.draw .pop = { c with
        transform := placeBelow m level commands
        saved := placesBelow m level commands } := by simp only [draw, hsaved]
    have hbelow : level < openPushes commands := by omega
    have hstep : level ≤ Bracket.step (openPushes commands)
        (Bracket.ofCommand (α := α) .pop) := by
      rw [hopen]
      exact Nat.le_refl _
    rw [hback]
    constructor
    · rw [← placeBelow_of_depth_le m (Nat.le_of_eq hdepth), Nat.add_sub_cancel,
        placeBelow_concat m hstep, if_pos hbelow]
    · rw [hdepth, Nat.add_sub_cancel, placesBelow_concat m (Nat.le_of_lt hbelow) hstep]

/-- Whatever command comes next, the canvas follows. -/
theorem draw (h : Follows m commands c) (command : Command α) :
    Follows m (commands ++ [command]) (c.draw command) := by
  cases command with
  | branch width length color => exact h.plain rfl
  | rotate radians => exact h.plain rfl
  | push => exact h.push
  | pop => exact h.pop
  | leaf width length color alpha => exact h.plain rfl

end Follows

/-- A replay on an empty canvas follows its commands. -/
theorem follows_replay (m : Transform α) (commands : List (Command α)) :
    Follows m commands ((blank m).replay commands) := by
  induction commands using List.reverseRecOn with
  | nil => exact ⟨rfl, rfl⟩
  | append_singleton commands command ih =>
    rw [replay_append]
    exact ih.draw command

/-- A command adds the shape it paints where the canvas stands, if it paints one. -/
theorem shapes_draw (c : Canvas α) (command : Command α) :
    (c.draw command).shapes.toList =
      c.shapes.toList ++ (command.shape? c.transform).toList := by
  cases command with
  | branch width length color => exact Array.toList_push
  | rotate radians => exact (List.append_nil _).symm
  | push => exact (List.append_nil _).symm
  | pop => cases hsaved : c.saved <;> simp [Canvas.draw, hsaved, Command.shape?]
  | leaf width length color alpha => exact Array.toList_push

/-- A replay paints the shape of each command at the place of the commands before. -/
theorem shapes_replay (m : Transform α) (commands : List (Command α)) :
    ((blank m).replay commands).shapes.toList =
      commands.zipIdx.filterMap fun (command, i) =>
        command.shape? (place m (commands.take i)) := by
  induction commands using List.reverseRecOn with
  | nil => rfl
  | append_singleton commands command ih =>
    have hearlier : commands.zipIdx.filterMap (fun (earlier, i) =>
          earlier.shape? (place m ((commands ++ [command]).take i)))
        = commands.zipIdx.filterMap (fun (earlier, i) =>
          earlier.shape? (place m (commands.take i))) := by
      refine List.filterMap_congr fun (earlier, i) hmem => ?_
      have hi : commands[i]? = some earlier := List.mem_zipIdx_iff_getElem?.mp hmem
      obtain ⟨hlt, -⟩ := List.getElem?_eq_some_iff.mp hi
      show earlier.shape? (place m ((commands ++ [command]).take i)) = _
      rw [List.take_append_of_le_length (Nat.le_of_lt hlt)]
    rw [replay_append, replay_cons, replay_nil, shapes_draw, ih,
      (follows_replay m commands).transform, List.zipIdx_append, List.filterMap_append,
      hearlier, Nat.zero_add, List.zipIdx_singleton]
    congr 1
    cases hshape : command.shape? (place m commands) <;> simp [hshape]

end Canvas

/-- **The stack-free meaning of a replay**: each branch and each leaf, in the order of
the commands, is painted once, in its own colour, at the product of the steps before
it that lie in no group closed by then. -/
theorem paint_eq_filterMap (commands : List (Command α)) (surface : Surface α) :
    paint commands surface = commands.zipIdx.filterMap fun (command, i) =>
      command.shape? (place surface.origin (commands.take i)) :=
  Canvas.shapes_replay surface.origin commands

end PlantGrammar
