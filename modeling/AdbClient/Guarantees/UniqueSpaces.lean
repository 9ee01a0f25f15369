import AdbClient.Abstract.Splitting
import AdbClient.Support.Runs

/-!
# Runs of spaces become one space

`unique_spaces` hands `std::unique` a predicate that holds of two spaces only. It
is not reflexive, so the contract of the library says nothing; what the pass over
kept and current characters leaves is the text with every maximal run of spaces
replaced by one.
-/
namespace AdbClient.Guarantees.UniqueSpaces
open Source Abstract Support.Runs

/-- The pass computes the replacement, run by run. -/
theorem uniqueSpaces_eq_shrinkGaps (s : Bytes) : uniqueSpaces s = shrinkGaps 32 s := by
  rw [uniqueSpaces_eq]
  induction s using runs_induction (32 : Byte) with
  | nil => rfl
  | gap n rest hend ih =>
    rw [shrinkGaps_gap n hend, ← ih]
    exact squeeze_spaces n hend
  | word w rest hne hw hend ih => rw [shrinkGaps_word hne hw hend, squeeze_word hw, ih]

/-- Two neighbours in the result are never both spaces. -/
theorem uniqueSpaces_isChain (s : Bytes) :
    (uniqueSpaces s).IsChain fun a b => ¬ (a = 32 ∧ b = 32) := by
  apply (List.isChain_destutter _ s).imp
  intro a b hkept hspaces
  exact hkept ⟨hspaces.1.trans hspaces.2.symm, hspaces.1⟩

/-- **What `unique_spaces` computes.** For every text: each maximal run of spaces is
replaced by one space. No two spaces are adjacent in the result, the characters
other than spaces and the words are those of the text in their order, a part
without spaces stays in its place whatever it repeats, and a second pass changes
nothing. -/
theorem uniqueSpaces_spec (s : Bytes) :
    uniqueSpaces s = (runs 32 s).flatMap (fun run => if 32 ∈ run then [32] else run) ∧
      (uniqueSpaces s).IsChain (fun a b => ¬ (a = 32 ∧ b = 32)) ∧
      (uniqueSpaces s).filter (· ≠ 32) = s.filter (· ≠ 32) ∧
      words 32 (uniqueSpaces s) = words 32 s ∧
      (∀ before w after, s = before ++ (w ++ after) → w ≠ [] → 32 ∉ w →
        uniqueSpaces s = uniqueSpaces before ++ (w ++ uniqueSpaces after)) ∧
      uniqueSpaces (uniqueSpaces s) = uniqueSpaces s := by
  have hruns := uniqueSpaces_eq_shrinkGaps s
  refine ⟨hruns, uniqueSpaces_isChain s, ?_, ?_, ?_, List.destutter_idem s _⟩
  · rw [hruns, filter_shrinkGaps]
  · rw [hruns, words_shrinkGaps]
  · intro before w after hs hne hw
    subst hs
    exact uniqueSpaces_word hne hw before after

example : uniqueSpaces (ascii "  aab   bb ") = ascii " aab bb " := by decide

end AdbClient.Guarantees.UniqueSpaces
