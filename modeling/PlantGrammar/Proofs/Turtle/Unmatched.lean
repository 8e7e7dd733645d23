import PlantGrammar.Proofs.Matching
import PlantGrammar.Proofs.Turtle.Nesting

/-!
# Which brackets a turtle reports

A turtle keeps no record of which bracket belongs to which; it only remembers
poses. What it reports is nevertheless what matching the brackets of the word
gives: the positions of each `]` without a partner, in order, and as many poses
left as there are `[` without one. Strict reading stops at the first of these,
which ends the shortest part of the word that closes more than it opens.
-/

namespace PlantGrammar

/-! ## Brackets of a word, by position -/

theorem Bracket.ofSymbol_eq_opening_iff {symbol : Char} :
    ofSymbol symbol = .opening ↔ symbol = '[' := by
  by_cases hopen : symbol = '['
  · simp [ofSymbol, hopen]
  · by_cases hclose : symbol = ']' <;> simp [ofSymbol, hopen, hclose]

theorem Bracket.ofSymbol_eq_closing_iff {symbol : Char} :
    ofSymbol symbol = .closing ↔ symbol = ']' := by
  by_cases hopen : symbol = '['
  · simp [ofSymbol, hopen]
  · by_cases hclose : symbol = ']' <;> simp [ofSymbol, hopen, hclose]

theorem getElem?_marks_eq_opening {word : Word} {i : Nat} :
    (marks word)[i]? = some .opening ↔ word[i]? = some '[' := by
  rw [marks, List.getElem?_map, Option.map_eq_some_iff]
  simp [Bracket.ofSymbol_eq_opening_iff]

theorem getElem?_marks_eq_closing {word : Word} {i : Nat} :
    (marks word)[i]? = some .closing ↔ word[i]? = some ']' := by
  rw [marks, List.getElem?_map, Option.map_eq_some_iff]
  simp [Bracket.ofSymbol_eq_closing_iff]

/-- The `[` at `j` and the `]` at `k` are partners: what stands between them opens
and closes the same. -/
def Matched (word : Word) (j k : Nat) : Prop := Bracket.Paired (marks word) j k

/-- The bracket at `i` has no partner. -/
def Unmatched (word : Word) (i : Nat) : Prop :=
  ∀ j, ¬ Matched word i j ∧ ¬ Matched word j i

instance (word : Word) (i : Nat) : Decidable (Unmatched word i) :=
  inferInstanceAs (Decidable (Bracket.Unpaired (marks word) i))

/-- A word that closes too much has a shortest part from the front on that does. -/
theorem exists_first_unmatched {word : Word} (h : ¬ Nests word) :
    ∃ front rest, word = front ++ ']' :: rest ∧ Nests front ∧ Balances front ∧
      (Bracket.strays 0 0 (marks word)).head? = some front.length := by
  obtain ⟨s, w, hmarks, hs, hdepth⟩ :=
    Bracket.exists_first_stray fun hcloses => h (nests_iff.mpr hcloses)
  obtain ⟨front, back, rfl, rfl, hback⟩ := List.map_eq_append_iff.mp hmarks
  obtain ⟨symbol, rest, rfl, hsymbol, rfl⟩ := List.map_eq_cons_iff.mp hback
  obtain rfl := Bracket.ofSymbol_eq_closing_iff.mp hsymbol
  refine ⟨front, rest, rfl, nests_iff.mpr hs, (balanced_marks_iff.mp (hs.balanced hdepth)).2, ?_⟩
  rw [hmarks, Bracket.strays_append, Bracket.strays_eq_nil_iff.mpr hs, hdepth]
  simp [Bracket.strays]

/-- Strict reading of a word that closes too much names the last symbol of the
shortest part that does. -/
theorem interpretStrict_of_not_nests {word : Word} (h : ¬ Nests word)
    (parameters : Parameters Float) (branchLength : Float) :
    ∃ part, part <+: word ∧ part.count '[' < part.count ']' ∧
      (∀ other, other <+: word → other.count '[' < other.count ']' →
        part.length ≤ other.length) ∧
      interpretStrict word parameters branchLength =
        .error (.unbalancedBracket (part.length - 1)) := by
  obtain ⟨front, rest, hsplit, hfront, heven, hhead⟩ := exists_first_unmatched h
  refine ⟨front ++ [']'], ⟨rest, by simp [hsplit]⟩, ?_, ?_, ?_⟩
  · rw [Balances] at heven
    simp [List.count_append, heven]
  · intro other hother hmore
    by_contra hshort
    have hinside : other <+: front := by
      refine List.prefix_of_prefix_length_le hother ⟨']' :: rest, hsplit.symm⟩ ?_
      simp at hshort
      omega
    exact Nat.not_le.mpr hmore (hfront other hinside)
  · rw [interpretStrict_eq, hhead]
    simp

/-- **Unmatched brackets are reported exactly**: a fresh turtle behind a word has
noted, in order, the position of each `]` without a partner, which are those before
which every `[` has its partner already, and it has a pose left for each `[` without
one. Reading strictly succeeds, as lenient reading, iff no part from the front on
has more `]` than `[`; otherwise it names the last symbol of the shortest such
part. -/
theorem unbalanced_walk_eq_unmatched (word : Word) (parameters : Parameters Float)
    (branchLength : Float) :
    let t := (Turtle.start parameters branchLength).walk word
    t.unbalanced.toList =
        ((List.range word.length).filter fun i => word[i]? = some ']' ∧ Unmatched word i) ∧
      (∀ i, i ∈ t.unbalanced ↔ word[i]? = some ']' ∧
        ∀ j < i, word[j]? = some '[' → ∃ k < i, Matched word j k) ∧
      t.depth =
        ((Finset.range word.length).filter fun j =>
          word[j]? = some '[' ∧ Unmatched word j).card ∧
      ((∃ commands, interpretStrict word parameters branchLength = .ok commands) ↔
        Nests word) ∧
      (Nests word → interpretStrict word parameters branchLength =
        .ok (interpret word parameters branchLength)) ∧
      (¬ Nests word → ∃ part, part <+: word ∧ part.count '[' < part.count ']' ∧
        (∀ other, other <+: word → other.count '[' < other.count ']' →
          part.length ≤ other.length) ∧
        interpretStrict word parameters branchLength =
          .error (.unbalancedBracket (part.length - 1))) := by
  intro t
  have hlength : (marks word).length = word.length := List.length_map _
  have hnoted : t.unbalanced.toList =
      (List.range word.length).filter fun i => word[i]? = some ']' ∧ Unmatched word i := by
    calc t.unbalanced.toList = Bracket.strays 0 0 (marks word) := Turtle.unbalanced_walkFrom _ 0
      _ = _ := Bracket.strays_eq_filter _
      _ = _ := by simp only [hlength, getElem?_marks_eq_closing]; rfl
  have hdepth : t.depth = ((Finset.range word.length).filter fun j =>
      word[j]? = some '[' ∧ Unmatched word j).card := by
    calc t.depth = Bracket.depth 0 (marks word) := Turtle.depth_walkFrom _ 0
      _ = _ := Bracket.depth_eq_card_unpaired _
      _ = _ := by simp only [hlength, getElem?_marks_eq_opening]; rfl
  refine ⟨hnoted, fun i => ?_, hdepth, ⟨?_, ?_⟩, fun h => interpretStrict_of_nests h _ _,
    fun h => interpretStrict_of_not_nests h _ _⟩
  · rw [← Array.mem_toList_iff, hnoted, List.mem_filter, decide_eq_true_iff]
    constructor
    · rintro ⟨-, hsymbol, halone⟩
      have hclose := getElem?_marks_eq_closing.mpr hsymbol
      refine ⟨hsymbol, fun j hji hopen => ?_⟩
      exact Bracket.depth_take_eq_zero_iff.mp ((Bracket.unpaired_closing_iff hclose).mp halone)
        j hji (getElem?_marks_eq_opening.mpr hopen)
    · rintro ⟨hsymbol, hall⟩
      have hclose := getElem?_marks_eq_closing.mpr hsymbol
      refine ⟨List.mem_range.mpr (List.getElem?_eq_some_iff.mp hsymbol).1, hsymbol,
        (Bracket.unpaired_closing_iff hclose).mpr (Bracket.depth_take_eq_zero_iff.mpr ?_)⟩
      exact fun j hji hopen => hall j hji (getElem?_marks_eq_opening.mp hopen)
  · rintro ⟨commands, hok⟩
    by_contra hnest
    obtain ⟨part, -, -, -, herror⟩ := interpretStrict_of_not_nests hnest parameters branchLength
    rw [herror] at hok
    cases hok
  · exact fun hnest => ⟨_, interpretStrict_of_nests hnest _ _⟩

/-- A stray bracket is passed over as if it were not there: the one behind it is
matched as usual, and the last `[` stays open. -/
example : (List.range 6).filter (Unmatched "]F[+][".toList) = [0, 1, 3, 5] := by decide

end PlantGrammar
