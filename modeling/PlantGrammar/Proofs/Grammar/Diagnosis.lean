import PlantGrammar.Proofs.Grammar.Nesting
import PlantGrammar.Proofs.Grammar.Within

/-!
# What a refused growth reports

`RuleSet.expandWithin` fails at the first check that does not hold: the count of
generations, then the length of the start word, then, in each generation, the count
of symbols after every one that is written. So its failure names the first generation
whose word is too long, and the symbols it counted are those of the shortest front
part whose rewriting is too long. That count passes the limit by less than one
successor.
-/

namespace PlantGrammar.RuleSet

variable {rules : List Rule} {limit : Nat}

theorem rewrite_isPrefix (rules : List Rule) {u v : Word} (h : u <+: v) :
    rewrite rules u <+: rewrite rules v := by
  obtain ⟨rest, rfl⟩ := h
  rw [rewrite_append]
  exact List.prefix_append _ _

/-! ## One generation -/

/-- The shortest front part of a word whose rewriting passes a limit. -/
structure Outgrows (rules : List Rule) (limit : Nat) (word part : Word) : Prop where
  front : part <+: word
  exceeds : limit < (rewrite rules part).length
  shortest : ∀ shorter, shorter <+: word → limit < (rewrite rules shorter).length →
    part.length ≤ shorter.length

/-- The shortest such part ends with the symbol whose image passes the limit: what
stands in front of it still fits. -/
theorem outgrows_iff {word part : Word} :
    Outgrows rules limit word part ↔
      ∃ front symbol back, word = front ++ symbol :: back ∧ part = front ++ [symbol] ∧
        (rewrite rules front).length ≤ limit ∧ limit < (rewrite rules part).length := by
  constructor
  · intro h
    obtain rfl | ⟨front, symbol, hpart⟩ := part.eq_nil_or_concat
    · exact absurd h.exceeds (Nat.not_lt_zero limit)
    · rw [List.concat_eq_append] at hpart
      subst hpart
      obtain ⟨back, hback⟩ := h.front
      refine ⟨front, symbol, back, by simpa using hback.symm, rfl, ?_, h.exceeds⟩
      refine Nat.le_of_not_lt fun hover => ?_
      have hless := h.shortest front ((List.prefix_append _ _).trans h.front) hover
      rw [List.length_append, List.length_singleton] at hless
      omega
  · rintro ⟨front, symbol, back, rfl, rfl, hfits, hover⟩
    refine ⟨⟨back, by simp⟩, hover, fun shorter hshorter hlong => ?_⟩
    refine Nat.le_of_not_lt fun hless => ?_
    -- a shorter part lies within `front`, whose rewriting fits
    have hwithin : shorter <+: front := by
      refine List.prefix_of_prefix_length_le hshorter (List.prefix_append _ _) ?_
      rw [List.length_append, List.length_singleton] at hless
      omega
    have hlength := (rewrite_isPrefix rules hwithin).length_le
    omega

/-- A pass that starts within the limit is stopped iff some symbol takes the count
past it, and reports the count with the image of that symbol. -/
theorem rewriteWithin_eq_error_iff {word : Word} :
    ∀ {done : Word} {count symbols : Nat}, count ≤ limit →
      (rewriteWithin rules limit done count word = .error symbols ↔
        ∃ front symbol back, word = front ++ symbol :: back ∧
          count + (rewrite rules front).length ≤ limit ∧ limit < symbols ∧
          symbols = count + (rewrite rules (front ++ [symbol])).length) := by
  induction word with
  | nil =>
    intro done count symbols hcount
    simp [rewriteWithin]
  | cons first word ih =>
    intro done count symbols hcount
    simp only [rewriteWithin, List.cons_eq_append_iff]
    by_cases hover : limit < count + (image rules first).length
    · rw [if_pos hover, Except.error.injEq]
      constructor
      · rintro rfl
        exact ⟨[], first, word, .inl ⟨rfl, rfl⟩, by simpa using hcount, hover, by simp⟩
      · rintro ⟨front, symbol, back, ⟨rfl, hword⟩ | ⟨front', rfl, _⟩, hfits, _, rfl⟩
        · simp [(List.cons.inj hword).1]
        · simp at hfits
          omega
    · rw [if_neg hover, ih (Nat.le_of_not_lt hover)]
      constructor
      · rintro ⟨front, symbol, back, rfl, hfits, hlong, rfl⟩
        refine ⟨first :: front, symbol, back, .inr ⟨front, rfl, rfl⟩, ?_, hlong, ?_⟩
        · simpa [Nat.add_assoc] using hfits
        · simp [Nat.add_assoc]
      · rintro ⟨front, symbol, back, ⟨rfl, hword⟩ | ⟨front', rfl, rfl⟩, hfits, hlong, rfl⟩
        · obtain ⟨rfl, rfl⟩ := List.cons.inj hword
          simp at hlong
          omega
        · refine ⟨front', symbol, back, rfl, ?_, hlong, ?_⟩
          · simpa [Nat.add_assoc] using hfits
          · simp [Nat.add_assoc]

/-- A numbered generation fails iff the rewritten word outgrows the limit, with the
length of what was rewritten until then. -/
theorem generationWithin_eq_error_iff {generation : Nat} {word : Word} {failure : Failure} :
    generationWithin rules limit generation word = .error failure ↔
      ∃ part, Outgrows rules limit word part ∧
        failure = .tooManySymbols generation (rewrite rules part).length limit := by
  simp only [generationWithin, mapError_eq_error_iff, outgrows_iff,
    rewriteWithin_eq_error_iff (Nat.zero_le limit), Nat.zero_add]
  constructor
  · rintro ⟨_, ⟨front, symbol, back, hword, hfits, hover, rfl⟩, rfl⟩
    exact ⟨_, ⟨front, symbol, back, hword, rfl, hfits, hover⟩, rfl⟩
  · rintro ⟨_, ⟨front, symbol, back, hword, rfl, hfits, hover⟩, rfl⟩
    exact ⟨_, ⟨front, symbol, back, hword, hfits, hover, rfl⟩, rfl⟩

/-! ## All generations -/

/-- The check in front of all generations fails at the count of generations, or else
at the start word. -/
theorem startWithin_eq_error_iff {start : Word} {generations : Nat} {limits : Limits}
    {failure : Failure} :
    startWithin start generations limits = .error failure ↔
      (limits.maxGenerations.toNat < generations ∧
        failure = .tooManyGenerations generations limits.maxGenerations.toNat) ∨
      (generations ≤ limits.maxGenerations.toNat ∧ limits.maxSymbols.toNat < start.length ∧
        failure = .tooManySymbols 0 start.length limits.maxSymbols.toNat) := by
  rw [startWithin]
  split
  · simp only [Except.error.injEq]
    grind
  · split
    · simp only [Except.error.injEq]
      grind
    · simp only [reduceCtorEq, false_iff]
      grind

/-- A run of generations fails iff one of them does after all earlier ones gave words
that fit. -/
theorem iterateWithin_eq_error_iff {remaining : Nat} :
    ∀ {generation : Nat} {word : Word} {failure : Failure},
      iterateWithin rules limit generation remaining word = .error failure ↔
        ∃ k < remaining, (∀ j < k, (iterate rules (j + 1) word).length ≤ limit) ∧
          generationWithin rules limit (generation + k) (iterate rules k word) =
            .error failure := by
  induction remaining with
  | zero =>
    intro generation word failure
    simp [iterateWithin]
  | succ remaining ih =>
    intro generation word failure
    rw [iterateWithin, bind_eq_error_iff, Nat.exists_lt_succ_left]
    refine or_congr ?_ ?_
    · simp [iterate]
    · constructor
      · rintro ⟨next, hnext, hrest⟩
        obtain ⟨hfits, rfl⟩ := generationWithin_eq_ok_iff.mp hnext
        obtain ⟨k, hk, hearlier, hlast⟩ := ih.mp hrest
        refine ⟨k, hk, ?_, by simpa [iterate, Nat.add_assoc, Nat.add_comm 1] using hlast⟩
        rw [Nat.forall_lt_succ_left]
        exact ⟨hfits, hearlier⟩
      · rintro ⟨k, hk, hearlier, hlast⟩
        obtain ⟨hfits, hlater⟩ := Nat.forall_lt_succ_left.mp hearlier
        refine ⟨_, generationWithin_eq_ok_iff.mpr ⟨hfits, rfl⟩, ih.mpr ⟨k, hk, hlater, ?_⟩⟩
        simpa [iterate, Nat.add_assoc, Nat.add_comm 1] using hlast

/-! ## The report -/

/-- Growth over `n` generations is refused at generation `k` with `symbols` counted:
generation `k` is the first whose word passes the limit. The start word is counted as
a whole, a later one as far as it was written when it passed the limit. -/
structure RefusedAt (g : RuleSet) (limit n k symbols : Nat) : Prop where
  asked : k ≤ n
  exceeds : limit < (g.expand k).length
  least : ∀ j < k, (g.expand j).length ≤ limit
  start : k = 0 → symbols = g.start.length
  later : ∀ i, k = i + 1 → ∃ part, Outgrows g.rules limit (g.expand i) part ∧
    symbols = (rewrite g.rules part).length

/-- The length of the longest successor, or one where all are empty. -/
def longestSuccessor (rules : List Rule) : Nat :=
  rules.foldr (fun rule longest => max rule.successor.length longest) 1

theorem one_le_longestSuccessor (rules : List Rule) : 1 ≤ longestSuccessor rules := by
  induction rules with
  | nil => exact Nat.le_refl 1
  | cons rule rules ih => exact Nat.le_trans ih (Nat.le_max_right _ _)

theorem length_le_longestSuccessor {rule : Rule} (h : rule ∈ rules) :
    rule.successor.length ≤ longestSuccessor rules := by
  induction rules with
  | nil => cases h
  | cons first rules ih =>
    rw [longestSuccessor, List.foldr_cons]
    rcases List.mem_cons.mp h with rfl | h
    · exact Nat.le_max_left _ _
    · exact Nat.le_trans (ih h) (Nat.le_max_right _ _)

theorem length_image_le (rules : List Rule) (symbol : Char) :
    (image rules symbol).length ≤ longestSuccessor rules := by
  rcases image_cases rules symbol with ⟨rule, hrule, _, himage⟩ | himage
  · rw [himage]
    exact length_le_longestSuccessor hrule
  · rw [himage]
    exact one_le_longestSuccessor rules

theorem Outgrows.length_le {word part : Word} (h : Outgrows rules limit word part) :
    (rewrite rules part).length ≤ (rewrite rules word).length :=
  (rewrite_isPrefix rules h.front).length_le

/-- The last symbol takes the count past the limit by less than its image. -/
theorem Outgrows.length_le_add {word part : Word} (h : Outgrows rules limit word part) :
    (rewrite rules part).length ≤ limit + longestSuccessor rules := by
  obtain ⟨front, symbol, _, _, rfl, hfits, _⟩ := outgrows_iff.mp h
  have himage := length_image_le rules symbol
  simp only [rewrite_append, rewrite_cons, rewrite_nil, List.append_nil, List.length_append]
  omega

variable {g : RuleSet} {n k symbols : Nat}

theorem Outgrows.length_le_expand {i : Nat} {part : Word}
    (h : Outgrows g.rules limit (g.expand i) part) :
    (rewrite g.rules part).length ≤ (g.expand (i + 1)).length := by
  rw [expand, iterate_succ]
  exact h.length_le

/-- The start word is refused whole. -/
theorem refusedAt_zero_iff :
    g.RefusedAt limit n 0 symbols ↔ limit < g.start.length ∧ symbols = g.start.length := by
  constructor
  · intro h
    exact ⟨h.exceeds, h.start rfl⟩
  · rintro ⟨hlong, rfl⟩
    exact { asked := Nat.zero_le n
            exceeds := hlong
            least := fun j hj => absurd hj (Nat.not_lt_zero j)
            start := fun _ => rfl
            later := fun i hi => absurd hi (Nat.succ_ne_zero i).symm }

/-- A later word is refused in its writing, from the last one that fits. -/
theorem refusedAt_succ_iff {i : Nat} :
    g.RefusedAt limit n (i + 1) symbols ↔
      i < n ∧ (∀ j < i + 1, (g.expand j).length ≤ limit) ∧
        ∃ part, Outgrows g.rules limit (g.expand i) part ∧
          symbols = (rewrite g.rules part).length := by
  constructor
  · intro h
    exact ⟨h.asked, h.least, h.later i rfl⟩
  · rintro ⟨hasked, hleast, part, hpart, hsymbols⟩
    exact { asked := hasked
            exceeds := Nat.lt_of_lt_of_le hpart.exceeds hpart.length_le_expand
            least := hleast
            start := fun h => absurd h (Nat.succ_ne_zero i)
            later := fun j hj => ⟨part, Nat.succ.inj hj ▸ hpart, hsymbols⟩ }

/-- The count lies past the limit, and within the word that was being written. -/
theorem RefusedAt.symbols_bounds (h : g.RefusedAt limit n k symbols) :
    limit < symbols ∧ symbols ≤ (g.expand k).length := by
  cases k with
  | zero =>
    obtain ⟨hlong, rfl⟩ := refusedAt_zero_iff.mp h
    exact ⟨hlong, Nat.le_refl _⟩
  | succ i =>
    obtain ⟨_, _, part, hpart, rfl⟩ := refusedAt_succ_iff.mp h
    exact ⟨hpart.exceeds, hpart.length_le_expand⟩

/-- Growth within limits fails for one of two causes, and reports it with its numbers:
more generations are asked for than are allowed, or they are allowed and the words
outgrow the limit. -/
theorem expandWithin_eq_error_iff {generations : UInt32} {limits : Limits}
    {failure : Failure} :
    g.expandWithin generations limits = .error failure ↔
      (limits.maxGenerations < generations ∧
        failure = .tooManyGenerations generations.toNat limits.maxGenerations.toNat) ∨
      (generations ≤ limits.maxGenerations ∧ ∃ k symbols,
        g.RefusedAt limits.maxSymbols.toNat generations.toNat k symbols ∧
        failure = .tooManySymbols k symbols limits.maxSymbols.toNat) := by
  rw [expandWithin, check_bind_eq_error_iff, UInt32.lt_iff_toNat_lt, UInt32.le_iff_toNat_le]
  simp only [startWithin_eq_error_iff, startWithin_eq_ok_iff, iterateWithin_eq_error_iff,
    generationWithin_eq_error_iff]
  constructor
  · rintro ((h | ⟨hgens, hlong, rfl⟩) |
      ⟨⟨hgens, hstart⟩, i, hi, hearlier, part, hpart, rfl⟩)
    · exact .inl h
    · exact .inr ⟨hgens, 0, _, refusedAt_zero_iff.mpr ⟨hlong, rfl⟩, rfl⟩
    · have hleast : ∀ j < i + 1, (g.expand j).length ≤ limits.maxSymbols.toNat :=
        Nat.forall_lt_succ_left.mpr ⟨hstart, hearlier⟩
      exact .inr ⟨hgens, i + 1, _, refusedAt_succ_iff.mpr ⟨hi, hleast, part, hpart, rfl⟩,
        by rw [Nat.add_comm 1]⟩
  · rintro (h | ⟨hgens, k, symbols, hrefused, rfl⟩)
    · exact .inl (.inl h)
    · cases k with
      | zero =>
        obtain ⟨hlong, rfl⟩ := refusedAt_zero_iff.mp hrefused
        exact .inl (.inr ⟨hgens, hlong, rfl⟩)
      | succ i =>
        obtain ⟨hi, hleast, part, hpart, rfl⟩ := refusedAt_succ_iff.mp hrefused
        obtain ⟨hstart, hearlier⟩ := Nat.forall_lt_succ_left.mp hleast
        exact .inr ⟨⟨hgens, hstart⟩, i, hi, hearlier, part, hpart, by rw [Nat.add_comm 1]⟩

/-- **A refused growth is diagnosed exactly**: it reports too many generations iff more
are asked for than allowed, whatever the words; else it reports the first generation
whose word passes the limit, with the symbols counted up to the first that does not
fit. That count lies past the limit, by no more than one successor in a generation,
and is at most the length of the whole word. -/
theorem expandWithin_diagnosis (g : RuleSet) (generations : UInt32) (limits : Limits) :
    (∀ failure, g.expandWithin generations limits = .error failure ↔
      (limits.maxGenerations < generations ∧
        failure = .tooManyGenerations generations.toNat limits.maxGenerations.toNat) ∨
      (generations ≤ limits.maxGenerations ∧ ∃ k symbols,
        g.RefusedAt limits.maxSymbols.toNat generations.toNat k symbols ∧
        failure = .tooManySymbols k symbols limits.maxSymbols.toNat)) ∧
    ∀ k symbols, g.RefusedAt limits.maxSymbols.toNat generations.toNat k symbols →
      limits.maxSymbols.toNat < symbols ∧ symbols ≤ (g.expand k).length ∧
      (1 ≤ k → symbols ≤ limits.maxSymbols.toNat + longestSuccessor g.rules) := by
  refine ⟨fun _ => expandWithin_eq_error_iff, fun k symbols h => ?_⟩
  refine ⟨h.symbols_bounds.1, h.symbols_bounds.2, fun hk => ?_⟩
  obtain ⟨i, rfl⟩ := Nat.exists_eq_add_of_le' hk
  obtain ⟨_, _, part, hpart, rfl⟩ := refusedAt_succ_iff.mp h
  exact hpart.length_le_add

end PlantGrammar.RuleSet
