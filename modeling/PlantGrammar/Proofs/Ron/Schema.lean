import PlantGrammar.Proofs.Ron.Codec
import PlantGrammar.Proofs.Ron.Number
import PlantGrammar.Proofs.Ron.Quoted
import PlantGrammar.Ron.Schema
import PlantGrammar.Storage.Document

/-!
# Grammars are read back

Each codec of a grammar reads back what it writes: numbers, characters and strings
by their own laws, rules, rule sets, limits and presets by those of lists and
records.
-/

namespace PlantGrammar.Ron

open Reader

namespace Codec

/-! ## Values of one line -/

theorem uint32_readsBack : uint32.ReadsBack 0 id where
  begins _ n := writeNatural_begins n.toNat
  read _ _ n rest _ hrest := by
    have hholds : (n.toNat : Int) ≤ 2 ^ 32 - 1 := by
      have := n.toNat_lt
      omega
    rw [uint32]
    dsimp only
    rw [bind_ok (natural_writeNatural (by decide) hholds hrest), UInt32.ofNat_toNat]
    rfl

theorem uint64_readsBack : uint64.ReadsBack 0 id where
  begins _ n := writeNatural_begins n.toNat
  read _ _ n rest _ hrest := by
    have hholds : (n.toNat : Int) ≤ 2 ^ 64 - 1 := by
      have := n.toNat_lt
      omega
    rw [uint64]
    dsimp only
    rw [bind_ok (natural_writeNatural (by decide) hholds hrest), UInt64.ofNat_toNat]
    rfl

theorem char_readsBack : char.ReadsBack 0 id where
  begins _ c := writeChar_begins c
  read _ _ c rest _ _ := char_writeChar c rest

theorem word_readsBack : word.ReadsBack 0 id where
  begins _ w := ⟨'"', _, rfl, by decide, by decide⟩
  read _ _ w rest _ _ := string_writeString w rest

theorem text_readsBack : text.ReadsBack 0 id where
  begins _ s := ⟨'"', _, rfl, by decide, by decide⟩
  read _ _ s rest _ _ := by
    rw [text]
    dsimp only
    rw [bind_ok (string_writeString s.toList rest), String.ofList_toList]
    rfl

/-! ## Records -/

theorem rule_readsBack : rule.ReadsBack 2 id := by
  refine Record.codec_readsBack ⟨by decide, by decide⟩ fun r => ?_
  exact .cons (char_readsBack.field _ _ _ _ _) (.cons (word_readsBack.field _ _ _ _ _) (.nil _))

theorem ruleSet_readsBack : ruleSet.ReadsBack 6 id := by
  have hrules : (list rule).ReadsBack 4 id := List.map_id_fun ▸ rule_readsBack.list
  refine Record.codec_readsBack ⟨by decide, by decide⟩ fun g => ?_
  exact .cons ((word_readsBack.mono (Nat.zero_le 4)).field _ _ _ _ _)
    (.cons (hrules.field _ _ _ _ _) (.nil _))

theorem limits_readsBack : limits.ReadsBack 2 id := by
  refine Record.codec_readsBack ⟨by decide, by decide⟩ fun l => ?_
  exact .cons (uint32_readsBack.field _ _ _ _ _) (.cons (uint64_readsBack.field _ _ _ _ _) (.nil _))

theorem preset_readsBack : preset.ReadsBack 8 id := by
  refine Record.codec_readsBack ⟨by decide, by decide⟩ fun p => ?_
  exact .cons ((text_readsBack.mono (Nat.zero_le 6)).field _ _ _ _ _)
    (.cons (ruleSet_readsBack.field _ _ _ _ _) (.nil _))

end Codec

end PlantGrammar.Ron

namespace PlantGrammar.Storage

open Ron

/-- The text of a value has the value that its codec reads back. -/
theorem ofText_textOf {α : Type} {c : Codec α} {need : Nat} {kept : α → α}
    (h : c.ReadsBack need kept) (hneed : need ≤ maxDepth) {a : α}
    (hmark : (c.encode a).head? ≠ some '#') : ofText c (textOf c a) = .ok (kept a) := by
  rw [ofText, textOf, String.toList_ofList, h.decode_encode hneed hmark]
  rfl

/-- **Grammars are read back**: whatever characters the strings of a rule set or a
preset hold and whatever its rules rewrite, and whatever the limits are, the text
that is written of it has it as its value. -/
theorem ofText_textOf_grammar :
    (∀ g : RuleSet, ofText Codec.ruleSet (textOf Codec.ruleSet g) = .ok g) ∧
      (∀ p : Preset, ofText Codec.preset (textOf Codec.preset p) = .ok p) ∧
      ∀ l : Limits, ofText Codec.limits (textOf Codec.limits l) = .ok l := by
  have hparen : some '(' ≠ some '#' := by decide
  refine ⟨fun g => ?_, fun p => ?_, fun l => ?_⟩
  · exact ofText_textOf Codec.ruleSet_readsBack (by decide) hparen
  · exact ofText_textOf Codec.preset_readsBack (by decide) hparen
  · exact ofText_textOf Codec.limits_readsBack (by decide) hparen

end PlantGrammar.Storage
