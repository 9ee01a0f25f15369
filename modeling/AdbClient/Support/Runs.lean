import Mathlib.Data.List.SplitBy
import Mathlib.Data.List.TakeWhile

/-!
# Gaps and words of a text

A text falls into maximal runs: the gaps, of nothing but separators, and the
words, without a separator. A gap and a word follow each other in turn. Facts
about the whole text go by induction over its runs.
-/
namespace AdbClient.Support.Runs
/-- The first run of one kind and what follows it. -/
theorem front_run {α : Type} {p : α → Bool} {a : α} (ha : p a = true) (s : List α) :
    ∃ w rest, a :: s = w ++ rest ∧ rest.length < (a :: s).length ∧ (∀ b ∈ w, p b = true) ∧
      ∀ b ∈ rest.head?, p b = false := by
  have hsplit : (a :: s).takeWhile p ++ (a :: s).dropWhile p = a :: s :=
    List.takeWhile_append_dropWhile
  refine ⟨_, _, hsplit.symm, ?_, fun b hb => List.mem_takeWhile_imp hb, ?_⟩
  · rw [List.dropWhile_cons_of_pos ha, List.length_cons]
    exact Nat.lt_succ_of_le (List.dropWhile_suffix p).length_le
  · intro b hb
    have hstop := List.head?_dropWhile_not p (a :: s)
    rw [Option.mem_def.mp hb] at hstop
    exact hstop

variable {α : Type} [DecidableEq α]

/-- Both are the separator, or neither is. -/
def alike (sep a b : α) : Bool := decide (a = sep ↔ b = sep)

/-- The maximal runs of separators and of other elements, in their order. -/
def runs (sep : α) (s : List α) : List (List α) := s.splitBy (alike sep)

/-- The maximal runs without a separator. -/
def words (sep : α) (s : List α) : List (List α) :=
  (runs sep s).filter fun run => decide (sep ∉ run)

/-- One separator for a gap; a word stays. -/
def shrink (sep : α) (run : List α) : List α := if sep ∈ run then [sep] else run

/-- The text with each gap replaced by one separator. -/
def shrinkGaps (sep : α) (s : List α) : List α := (runs sep s).flatMap (shrink sep)

variable {sep : α}

/-- A front of one kind is the first run when the text goes on with the other. -/
theorem runs_append {w rest : List α} (hne : w ≠ [])
    (hkind : ∀ a ∈ w, ∀ b ∈ w, alike sep a b = true)
    (hend : ∀ a ∈ w, ∀ b ∈ rest.head?, alike sep a b = false) :
    runs sep (w ++ rest) = w :: runs sep rest := by
  have hfirst : w.splitBy (alike sep) = [w] := by
    apply List.splitBy_of_isChain hne
    apply List.Pairwise.isChain
    exact List.pairwise_of_forall_mem_list hkind
  rw [runs, List.splitBy_append, hfirst]
  · rfl
  · intro a ha
    exact hend a (List.mem_of_getLast? ha)

theorem runs_gap (n : Nat) {rest : List α} (hend : rest.head? ≠ some sep) :
    runs sep (List.replicate (n + 1) sep ++ rest) =
      List.replicate (n + 1) sep :: runs sep rest := by
  apply runs_append (by simp)
  · intro a ha b hb
    simp [alike, List.eq_of_mem_replicate ha, List.eq_of_mem_replicate hb]
  · intro a ha b hb
    have hsep : b ≠ sep := by
      intro hb'
      exact hend (hb' ▸ hb)
    simp [alike, List.eq_of_mem_replicate ha, hsep]

theorem runs_word {w rest : List α} (hne : w ≠ []) (hw : sep ∉ w)
    (hend : ∀ b ∈ rest.head?, b = sep) : runs sep (w ++ rest) = w :: runs sep rest := by
  apply runs_append hne
  · intro a ha b hb
    simp [alike, ne_of_mem_of_not_mem ha hw, ne_of_mem_of_not_mem hb hw]
  · intro a ha b hb
    simp [alike, ne_of_mem_of_not_mem ha hw, hend b hb]

/-- A text is empty, or a gap and a text that does not start with a separator, or a
word and a text that starts with nothing else. -/
theorem runs_induction (sep : α) {motive : List α → Prop} (nil : motive [])
    (gap : ∀ n rest, rest.head? ≠ some sep → motive rest →
      motive (List.replicate (n + 1) sep ++ rest))
    (word : ∀ w rest, w ≠ [] → sep ∉ w → (∀ b ∈ rest.head?, b = sep) → motive rest →
      motive (w ++ rest)) (s : List α) : motive s := by
  induction hn : s.length using Nat.strongRecOn generalizing s with
  | ind n ih =>
    cases s with
    | nil => exact nil
    | cons a s =>
      subst hn
      by_cases ha : a = sep
      · obtain ⟨w, rest, hs, hlt, hw, hend⟩ :=
          front_run (p := fun b => decide (b = sep)) (by simpa using ha) s
        have hpos : 0 < w.length := by
          have hlen := congrArg List.length hs
          rw [List.length_append] at hlen
          omega
        have hgap : w = List.replicate (w.length - 1 + 1) sep := by
          rw [Nat.sub_add_cancel hpos]
          exact List.eq_replicate_of_mem fun b hb => by simpa using hw b hb
        rw [hs, hgap]
        apply gap _ rest
        · intro hb
          simpa using hend sep hb
        · exact ih rest.length hlt rest rfl
      · obtain ⟨w, rest, hs, hlt, hw, hend⟩ :=
          front_run (p := fun b => decide (b ≠ sep)) (by simpa using ha) s
        rw [hs]
        apply word w rest
        · intro hnil
          subst hnil
          rw [hs] at hlt
          exact Nat.lt_irrefl _ hlt
        · intro hsep
          simpa using hw sep hsep
        · intro b hb
          simpa using hend b hb
        · exact ih rest.length hlt rest rfl

theorem shrinkGaps_gap (n : Nat) {rest : List α} (hend : rest.head? ≠ some sep) :
    shrinkGaps sep (List.replicate (n + 1) sep ++ rest) = sep :: shrinkGaps sep rest := by
  rw [shrinkGaps, runs_gap n hend]
  simp [shrink, shrinkGaps]

theorem shrinkGaps_word {w rest : List α} (hne : w ≠ []) (hw : sep ∉ w)
    (hend : ∀ b ∈ rest.head?, b = sep) : shrinkGaps sep (w ++ rest) = w ++ shrinkGaps sep rest := by
  rw [shrinkGaps, runs_word hne hw hend, List.flatMap_cons, shrink, if_neg hw]
  rfl

theorem words_gap (n : Nat) {rest : List α} (hend : rest.head? ≠ some sep) :
    words sep (List.replicate (n + 1) sep ++ rest) = words sep rest := by
  rw [words, runs_gap n hend]
  simp [words]

theorem words_word {w rest : List α} (hne : w ≠ []) (hw : sep ∉ w)
    (hend : ∀ b ∈ rest.head?, b = sep) : words sep (w ++ rest) = w :: words sep rest := by
  rw [words, runs_word hne hw hend, List.filter_cons_of_pos (by simpa using hw)]
  rfl

theorem head?_shrinkGaps (s : List α) : (shrinkGaps sep s).head? = s.head? := by
  induction s using runs_induction sep with
  | nil => rfl
  | gap n rest hend _ =>
    rw [shrinkGaps_gap n hend]
    rfl
  | word w rest hne hw hend _ =>
    rw [shrinkGaps_word hne hw hend, List.head?_append_of_ne_nil _ hne,
      List.head?_append_of_ne_nil _ hne]

/-- The words of a text do not depend on how wide its gaps are. -/
theorem words_shrinkGaps (s : List α) : words sep (shrinkGaps sep s) = words sep s := by
  induction s using runs_induction sep with
  | nil => rfl
  | gap n rest hend ih =>
    have hshrunk : (shrinkGaps sep rest).head? ≠ some sep := by rwa [head?_shrinkGaps]
    rw [shrinkGaps_gap n hend, words_gap n hend, ← ih]
    exact words_gap 0 hshrunk
  | word w rest hne hw hend ih =>
    have hshrunk : ∀ b ∈ (shrinkGaps sep rest).head?, b = sep := by rwa [head?_shrinkGaps]
    rw [shrinkGaps_word hne hw hend, words_word hne hw hend, words_word hne hw hshrunk, ih]

/-- Nothing but separators is lost. -/
theorem filter_shrinkGaps (s : List α) :
    (shrinkGaps sep s).filter (· ≠ sep) = s.filter (· ≠ sep) := by
  induction s using runs_induction sep with
  | nil => rfl
  | gap n rest hend ih =>
    rw [shrinkGaps_gap n hend, List.filter_cons_of_neg (by simp), ih, List.filter_append]
    simp
  | word w rest hne hw hend ih =>
    rw [shrinkGaps_word hne hw hend, List.filter_append, List.filter_append, ih]

end AdbClient.Support.Runs
