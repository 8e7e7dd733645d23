import Mathlib.Data.List.DropRight
import Mathlib.Data.List.TakeDrop
import PlantGrammar.Text.Blank

/-!
# Runs of characters

A run of characters of one kind is split off whole where a character of another kind
follows it, and a text without blanks has nothing to trim.
-/

namespace PlantGrammar.Text

variable {p : Char → Bool} {run rest : List Char}

/-- A run of characters ends where one follows that does not belong to it. -/
theorem dropWhile_append (hrun : ∀ c ∈ run, p c = true) (hrest : ∀ c ∈ rest.head?, p c = false) :
    (run ++ rest).dropWhile p = rest := by
  rw [List.dropWhile_append_of_pos hrun]
  cases rest with
  | nil => rfl
  | cons c rest => exact List.dropWhile_cons_of_neg (by simp [hrest c rfl])

theorem span_append (hrun : ∀ c ∈ run, p c = true) (hrest : ∀ c ∈ rest.head?, p c = false) :
    (run ++ rest).span p = (run, rest) := by
  have hdrop := dropWhile_append hrun hrest
  have hboth := List.takeWhile_append_dropWhile (p := p) (l := run ++ rest)
  rw [hdrop] at hboth
  rw [List.span_eq_takeWhile_dropWhile, hdrop, List.append_cancel_right hboth]

theorem dropWhile_eq_self {cs : List Char} (h : ∀ c ∈ cs, p c = false) : cs.dropWhile p = cs := by
  cases cs with
  | nil => rfl
  | cons c cs => exact List.dropWhile_cons_of_neg (by simp [h c List.mem_cons_self])

/-- A text without blanks has nothing to trim. -/
theorem trim_eq_self {cs : List Char} (h : ∀ c ∈ cs, isBlank c = false) : trim cs = cs := by
  rw [trim, trimEnd, dropWhile_eq_self h, dropWhile_eq_self (by simpa using h),
    List.reverse_reverse]

end PlantGrammar.Text
