import PlantGrammar.Proofs.Matching
import PlantGrammar.Proofs.Turtle.Answer
import PlantGrammar.Proofs.Turtle.Unmatched

/-!
# The table of a walk

Each symbol stands for the same few commands wherever it is walked (`Turtle.response`),
but for the `]`, which takes the turtle back only where something is left to close.
Whether it is can be read off the word and the number of poses remembered in front of
it (`Closes`), so that a walk translates its word symbol by symbol.
-/

namespace PlantGrammar

/-! ## What is left to close -/

/-- The `]` at `i` has a partner in the word, or among the `opened` poses that are
remembered in front of it: these count as so many `[`. -/
def Closes (opened : Nat) (word : Word) (i : Nat) : Prop :=
  ∃ j, Matched (List.replicate opened '[' ++ word) j (opened + i)

instance (opened : Nat) (word : Word) (i : Nat) : Decidable (Closes opened word i) :=
  decidable_of_iff
    (∃ j < opened + i,
      Bracket.Paired (marks (List.replicate opened '[' ++ word)) j (opened + i))
    ⟨fun ⟨j, _, hpair⟩ => ⟨j, hpair⟩, fun ⟨j, hpair⟩ => ⟨j, hpair.1, hpair⟩⟩

theorem marks_replicate_open (n : Nat) :
    marks (List.replicate n '[') = List.replicate n .opening := List.map_replicate

theorem Bracket.depth_replicate_open (d n : Nat) :
    depth d (List.replicate n opening) = d + n := by
  induction n generalizing d with
  | zero => rfl
  | succ n ih =>
    rw [List.replicate_succ, depth_cons, ih, step]
    omega

/-- Something is left to close iff a group is open. -/
theorem closes_iff {opened : Nat} {word : Word} {i : Nat} (hclose : word[i]? = some ']') :
    Closes opened word i ↔ 0 < Bracket.depth opened ((marks word).take i) := by
  have hmark : (marks (List.replicate opened '[' ++ word))[opened + i]? = some .closing := by
    rw [getElem?_marks_eq_closing, List.getElem?_append_right (by simp)]
    simpa using hclose
  have htake : (marks (List.replicate opened '[' ++ word)).take (opened + i) =
      List.replicate opened .opening ++ (marks word).take i := by
    rw [marks_append, marks_replicate_open, List.take_append, List.length_replicate,
      List.take_of_length_le (by simp), Nat.add_sub_cancel_left]
  have halone := Bracket.unpaired_closing_iff hmark
  rw [htake, Bracket.depth_append, Bracket.depth_replicate_open, Nat.zero_add] at halone
  rw [Nat.pos_iff_ne_zero, ne_eq, ← halone, Bracket.Unpaired, Closes]
  constructor
  · rintro ⟨j, hpair⟩ hnone
    exact (hnone j).2 hpair
  · intro hsome
    by_contra hnone
    refine hsome fun j => ⟨fun hpair => ?_, fun hpair => hnone ⟨j, hpair⟩⟩
    rw [hpair.2.1] at hmark
    cases hmark

/-- The positions of the brackets that have nothing to close. -/
def unclosed (opened : Nat) (word : Word) : List Nat :=
  (List.range word.length).filter fun i => word[i]? = some ']' ∧ ¬ Closes opened word i

theorem unclosed_eq_strays (opened : Nat) (word : Word) :
    unclosed opened word = Bracket.strays opened 0 (marks word) := by
  rw [Bracket.strays_eq_filter_depth, length_marks, unclosed]
  refine List.filter_congr fun i _ => ?_
  rw [decide_eq_decide, getElem?_marks_eq_closing]
  refine and_congr_right fun hclose => ?_
  rw [closes_iff hclose, Nat.pos_iff_ne_zero, not_not]

/-- A `]` in an open group may close it from the inside, and the poses in front of a
word are closed from the last one on. -/
example : (List.range 6).filter (Closes 1 "]F[]]]".toList) = [0, 3] := by decide

namespace Turtle

/-! ## The table -/

/-- What a turtle with some parameters and a branch length records for a symbol. -/
def response (p : Parameters Float) (length : Float) (closes : Bool) :
    Char → List (Command Float)
  | 'F' => [.branch p.branchWidth length p.branchColor]
  | '+' => [.rotate (radians p.branchAngle)]
  | '-' => [.rotate (-radians p.branchAngle)]
  | '[' => [.push]
  | ']' =>
    .leaf p.leafWidth p.leafLength p.leafColor p.leafAlpha :: if closes then [.pop] else []
  | _ => []

/-- Only a `]` asks whether there is something to close. -/
theorem response_congr {p : Parameters Float} {length : Float} {closes closes' : Bool}
    {symbol : Char} (h : symbol = ']' → closes = closes') :
    response p length closes symbol = response p length closes' symbol := by
  by_cases hclose : symbol = ']'
  · rw [h hclose]
  · unfold response
    split
    · rfl
    · rfl
    · rfl
    · rfl
    · exact absurd rfl hclose
    · rfl

theorem answer_eq_response (t : Turtle) (symbol : Char) :
    t.answer symbol = response t.parameters t.pose.branchLength (0 < t.depth) symbol := by
  unfold answer response
  split
  · rfl
  · rfl
  · rfl
  · rfl
  · cases hsaved : t.saved <;> simp [depth, hsaved]
  · simp [*]

variable {p : Parameters Float} {length : Float}

/-- A steady turtle translates its word by the table, and a `]` closes something iff a
group is open before it. -/
theorem Steady.commands_walkFrom {word : Word} :
    ∀ {t : Turtle} {position : Nat}, Steady p length t →
      (t.walkFrom position word).commands.toList = t.commands.toList ++
        (word.mapIdx fun i symbol =>
          response p length (0 < Bracket.depth t.depth ((marks word).take i)) symbol).flatten := by
  induction word with
  | nil => exact fun _ => (List.append_nil _).symm
  | cons symbol word ih =>
    intro t position h
    have hhere := (Steady.kept p length).cursor t position h
    rw [walkFrom, ih ((Steady.kept p length).follow _ hhere symbol), commands_follow,
      answer_eq_response, depth_follow, hhere.parameters, hhere.pose, List.mapIdx_cons,
      List.flatten_cons, List.append_assoc]
    rfl

/-- `Steady.commands_walkFrom`, with the partners of the brackets. -/
theorem Steady.commands_walk {t : Turtle} (h : Steady p length t) (word : Word) :
    (t.walk word).commands.toList = t.commands.toList ++
      (word.mapIdx fun i symbol => response p length (Closes t.depth word i) symbol).flatten := by
  rw [walk, h.commands_walkFrom]
  congr 2
  refine List.mapIdx_eq_mapIdx_iff.mpr fun i hi => response_congr fun hclose => ?_
  have hsymbol : word[i]? = some ']' := by rw [List.getElem?_eq_getElem hi, hclose]
  exact decide_eq_decide.mpr (closes_iff hsymbol).symm

/-- A walk notes the brackets of its word that have nothing to close. -/
theorem unbalanced_walk (t : Turtle) (word : Word) :
    (t.walk word).unbalanced.toList = t.unbalanced.toList ++ unclosed t.depth word := by
  rw [unclosed_eq_strays]
  exact unbalanced_walkFrom t 0

end Turtle

end PlantGrammar
