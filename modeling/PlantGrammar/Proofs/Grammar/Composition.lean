import PlantGrammar.Proofs.Grammar.Within

/-!
# Growth in pieces

Rewriting replaces every symbol by itself, so a word may be cut anywhere: its pieces
grow apart, and what they become lies side by side. The generations may be cut too:
`m + n` of them are `m`, and then `n` from the word these gave.

Within limits the second cut needs care. The run that goes on checks its start word
once more, and counts its generations from one again. The check passes, because the
word came out of a run within the same limits; and the count shows in failures only,
which `Failure.later` puts back under the number they have in the whole run.
-/

namespace PlantGrammar

/-- A failure of a run that goes on after `done` generations, under the number that
its generation has from the beginning. -/
def Failure.later (done : Nat) : Failure → Failure
  | .tooManySymbols generation symbols limit =>
    .tooManySymbols (done + generation) symbols limit
  | failure => failure

namespace RuleSet

variable {rules : List Rule} {limit : Nat} {limits : Limits}

/-! ## Free growth -/

theorem iterate_append (rules : List Rule) (n : Nat) (u v : Word) :
    iterate rules n (u ++ v) = iterate rules n u ++ iterate rules n v := by
  induction n generalizing u v with
  | zero => rfl
  | succ n ih => rw [iterate, rewrite_append, ih, iterate, iterate]

theorem iterate_add (rules : List Rule) (m n : Nat) (word : Word) :
    iterate rules (m + n) word = iterate rules n (iterate rules m word) := by
  induction m generalizing word with
  | zero => rw [Nat.zero_add, iterate]
  | succ m ih => rw [Nat.add_right_comm, iterate, ih, iterate]

/-! ## Growth within limits -/

/-- A generation under a later number fails under a later number. -/
theorem generationWithin_later (done : Nat) {generation : Nat} {word : Word} :
    generationWithin rules limit (done + generation) word =
      (generationWithin rules limit generation word).mapError (.later done) := by
  rw [generationWithin, generationWithin]
  cases rewriteWithin rules limit [] 0 word <;> rfl

/-- So does a run of generations. -/
theorem iterateWithin_later (done : Nat) {remaining : Nat} :
    ∀ (generation : Nat) (word : Word),
      iterateWithin rules limit (done + generation) remaining word =
        (iterateWithin rules limit generation remaining word).mapError (.later done) := by
  induction remaining with
  | zero =>
    intro generation word
    rfl
  | succ remaining ih =>
    intro generation word
    rw [iterateWithin, iterateWithin, generationWithin_later]
    cases generationWithin rules limit generation word with
    | error failure => rfl
    | ok next => exact ih (generation + 1) next

/-- A run of `m + n` generations is one of `m` with one of `n` behind it. -/
theorem iterateWithin_add (m n : Nat) :
    ∀ {generation : Nat} {word : Word},
      iterateWithin rules limit generation (m + n) word =
        iterateWithin rules limit generation m word >>=
          iterateWithin rules limit (generation + m) n := by
  induction m with
  | zero =>
    intro generation word
    rw [Nat.zero_add]
    rfl
  | succ m ih =>
    intro generation word
    rw [Nat.add_right_comm, iterateWithin, iterateWithin]
    cases generationWithin rules limit generation word with
    | error failure => rfl
    | ok next =>
      change iterateWithin rules limit (generation + 1) (m + n) next = _
      rw [ih, Nat.add_right_comm]
      rfl

/-- As long as the generations are allowed, the check in front of them looks at the
start word only. -/
theorem startWithin_congr {start : Word} {m n : Nat} (hm : m ≤ limits.maxGenerations.toNat)
    (hn : n ≤ limits.maxGenerations.toNat) :
    startWithin start m limits = startWithin start n limits := by
  rw [startWithin, startWithin, if_neg (Nat.not_lt.mpr hm), if_neg (Nat.not_lt.mpr hn)]

/-- What growth within limits returns passes the check of the same limits. -/
theorem startWithin_of_expandWithin {g : RuleSet} {generations : UInt32} {word : Word}
    {n : Nat} (h : g.expandWithin generations limits = .ok word)
    (hn : n ≤ limits.maxGenerations.toNat) : startWithin word n limits = .ok () := by
  obtain ⟨⟨_, hfits⟩, rfl⟩ := expandWithin_eq_ok_iff.mp h
  exact startWithin_eq_ok_iff.mpr ⟨hn, hfits _ (Nat.le_refl _)⟩

/-- Growing `m + n` generations within limits is growing `m`, and `n` from the word
these gave, down to the failures. -/
theorem expandWithin_add (start : Word) {m n : UInt32}
    (h : m.toNat + n.toNat ≤ limits.maxGenerations.toNat) :
    expandWithin ⟨start, rules⟩ (m + n) limits =
      expandWithin ⟨start, rules⟩ m limits >>= fun middle =>
        (expandWithin ⟨middle, rules⟩ n limits).mapError (.later m.toNat) := by
  have hsum : (m + n).toNat = m.toNat + n.toNat := by
    have hlimit := limits.maxGenerations.toNat_lt
    rw [UInt32.toNat_add, Nat.mod_eq_of_lt (by omega)]
  have hcheck : startWithin start (m.toNat + n.toNat) limits =
      startWithin start m.toNat limits :=
    startWithin_congr h (by omega)
  have hsplit : expandWithin ⟨start, rules⟩ (m + n) limits =
      expandWithin ⟨start, rules⟩ m limits >>=
        iterateWithin rules limits.maxSymbols.toNat (1 + m.toNat) n.toNat := by
    simp only [expandWithin, hsum, hcheck, iterateWithin_add, bind_assoc]
  rw [hsplit]
  cases hfirst : expandWithin ⟨start, rules⟩ m limits with
  | error failure => rfl
  | ok middle =>
    -- the word that came out fits, so checking it once more changes nothing
    have hagain : expandWithin ⟨middle, rules⟩ n limits =
        iterateWithin rules limits.maxSymbols.toNat 1 n.toNat middle := by
      rw [expandWithin, startWithin_of_expandWithin hfirst (by omega)]
      rfl
    change iterateWithin rules _ (1 + m.toNat) n.toNat middle = Except.mapError _ _
    rw [hagain, Nat.add_comm, iterateWithin_later]

/-- **Growth goes in pieces**: what a word grows into is what its parts grow into, side
by side; `m + n` generations are `m`, and then `n` from there; and within limits that
allow all of them the same word comes out in one run as in two. -/
theorem growth_in_pieces (rules : List Rule) :
    (∀ (u v : Word) (n : Nat),
      expand ⟨u ++ v, rules⟩ n = expand ⟨u, rules⟩ n ++ expand ⟨v, rules⟩ n) ∧
    (∀ (start : Word) (m n : Nat),
      expand ⟨start, rules⟩ (m + n) = expand ⟨expand ⟨start, rules⟩ m, rules⟩ n) ∧
    ∀ (start : Word) (m n : UInt32) (limits : Limits),
      m.toNat + n.toNat ≤ limits.maxGenerations.toNat → ∀ word,
        (expandWithin ⟨start, rules⟩ (m + n) limits = .ok word ↔
          ∃ middle, expandWithin ⟨start, rules⟩ m limits = .ok middle ∧
            expandWithin ⟨middle, rules⟩ n limits = .ok word) := by
  refine ⟨fun u v n => iterate_append rules n u v, fun start m n => iterate_add rules m n start,
    fun start m n limits h word => ?_⟩
  simp only [expandWithin_add start h, bind_eq_ok_iff, mapError_eq_ok_iff]

/-- The limit is met exactly, first on the way and then at the end. -/
theorem growth_in_pieces_algae :
    (1 : UInt32).toNat + (1 : UInt32).toNat ≤ (2 : UInt32).toNat ∧
    ∃ middle,
      expandWithin ⟨['A'], [⟨'A', ['A', 'B']⟩, ⟨'B', ['A']⟩]⟩ 1 ⟨2, 3⟩ = .ok middle ∧
      expandWithin ⟨middle, [⟨'A', ['A', 'B']⟩, ⟨'B', ['A']⟩]⟩ 1 ⟨2, 3⟩ =
        .ok ['A', 'B', 'A'] :=
  ⟨by decide, ((growth_in_pieces _).2.2 ['A'] 1 1 ⟨2, 3⟩ (by decide) _).mp rfl⟩

end RuleSet

end PlantGrammar
