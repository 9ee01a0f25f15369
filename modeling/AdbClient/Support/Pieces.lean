import Mathlib.Data.List.Basic

/-!
# The pieces of a text

A separator cuts a text into pieces, one more than it occurs in it. Lines are the
pieces in front of a separator: what is behind the last one is no line. A sequence
that is sent in groups of neighbours begins with a group that starts with its
first element.
-/
namespace AdbClient.Support.Pieces
variable {α : Type}

section Separated

/-- A text without separator, or a piece, a separator and a text. -/
theorem separated_induction (sep : α) {motive : List α → Prop} (last : ∀ w, sep ∉ w → motive w)
    (cut : ∀ w rest, sep ∉ w → motive rest → motive (w ++ sep :: rest)) (s : List α) :
    motive s := by
  induction hn : s.length using Nat.strongRecOn generalizing s with
  | ind n ih =>
    by_cases h : sep ∈ s
    · obtain ⟨w, rest, rfl, hw⟩ := List.eq_append_cons_of_mem h
      rw [List.length_append, List.length_cons] at hn
      exact cut w rest hw (ih rest.length (by omega) rest rfl)
    · exact last s h

variable {sep : α}

/-- The pieces joined: all but the last end in a separator. -/
theorem intercalate_concat (init : List (List α)) (w : List α) :
    [sep].intercalate (init ++ [w]) = init.flatMap (· ++ [sep]) ++ w := by
  induction init with
  | nil => exact List.intercalate_singleton
  | cons v init ih =>
    rw [List.cons_append, List.intercalate_cons_of_ne_nil (by simp), ih, List.flatMap_cons,
      List.append_assoc, List.append_assoc, List.append_assoc]

/-- Nothing is behind the last separator exactly when the text is empty or ends
in one. -/
theorem ends_iff {init : List (List α)} {w : List α} (hw : sep ∉ w) :
    (init.flatMap (· ++ [sep]) ++ w = [] ∨ [sep] <:+ init.flatMap (· ++ [sep]) ++ w) ↔ w = [] := by
  constructor
  · intro h
    rcases w.eq_nil_or_concat with hnil | ⟨v, c, rfl⟩
    · exact hnil
    · exfalso
      rw [List.concat_eq_append] at h hw
      rcases h with h | h
      · simp at h
      · rw [← List.append_assoc] at h
        have hc := List.suffix_of_suffix_length_le h (List.suffix_append _ [c]) (by simp)
        have hsep : [sep] = [c] := hc.eq_of_length rfl
        simp only [List.cons.injEq, and_true] at hsep
        exact hw (by simp [hsep])
  · intro h
    subst h
    rw [List.append_nil]
    rcases init.eq_nil_or_concat with rfl | ⟨init, v, rfl⟩
    · exact .inl rfl
    · right
      rw [List.concat_eq_append, List.flatMap_append, List.flatMap_singleton, ← List.append_assoc]
      exact List.suffix_append _ _

variable [DecidableEq α]

/-- The first piece is what is in front of the first separator. -/
theorem takeWhile_piece {w : List α} (hw : sep ∉ w) (rest : List α) :
    (w ++ sep :: rest).takeWhile (· ≠ sep) = w := by
  rw [List.takeWhile_append_of_pos]
  · simp
  · intro c hc
    simpa using ne_of_mem_of_not_mem hc hw

theorem not_mem_of_mem_splitOn (s : List α) : ∀ w ∈ s.splitOn sep, sep ∉ w := by
  induction s using separated_induction sep with
  | last s hs =>
    intro w hw
    rw [List.splitOn_eq_singleton hs, List.mem_singleton] at hw
    exact hw ▸ hs
  | cut v rest hv ih =>
    intro w hw
    rw [List.splitOn_append_cons_self_of_not_mem hv, List.mem_cons] at hw
    rcases hw with rfl | hw
    · exact hv
    · exact ih w hw

/-- There is one piece more than there are separators. -/
theorem splitOn_length (s : List α) : (s.splitOn sep).length = s.count sep + 1 := by
  induction s using separated_induction sep with
  | last s hs => rw [List.splitOn_eq_singleton hs, List.count_eq_zero.mpr hs, List.length_singleton]
  | cut w rest hw ih =>
    rw [List.splitOn_append_cons_self_of_not_mem hw, List.length_cons, ih, List.count_append,
      List.count_eq_zero.mpr hw, List.count_cons_self]
    omega

end Separated

section Groups
variable {a : α} {as : List α} {groups : List (List α)}

/-- All ways to cut a list into non-empty groups of neighbours. -/
def groupings : List α → List (List (List α))
  | [] => [[]]
  | a :: as => (groupings as).flatMap fun
      | [] => [[[a]]]
      | g :: gs => [[a] :: g :: gs, (a :: g) :: gs]

/-- The first element is a group of its own or in one with the next. -/
theorem groups_cases (h : groups.flatten = a :: as) (hne : ∀ g ∈ groups, g ≠ []) :
    ∃ rest : List (List α), rest.flatten = as ∧ (∀ g ∈ rest, g ≠ []) ∧
      (groups = [a] :: rest ∨ ∃ g gs, rest = g :: gs ∧ groups = (a :: g) :: gs) := by
  cases groups with
  | nil => cases h
  | cons g gs =>
    obtain ⟨b, g, rfl⟩ := List.exists_cons_of_ne_nil (hne g (by simp))
    have hgs : ∀ g' ∈ gs, g' ≠ [] := fun g' hg' => hne g' (by simp [hg'])
    rw [List.flatten_cons, List.cons_append, List.cons.injEq] at h
    obtain ⟨rfl, h⟩ := h
    cases g with
    | nil => exact ⟨gs, h, hgs, .inl rfl⟩
    | cons c g =>
      refine ⟨(c :: g) :: gs, h, ?_, .inr ⟨c :: g, gs, rfl, rfl⟩⟩
      intro g' hg'
      rcases List.mem_cons.mp hg' with rfl | hg'
      · exact List.cons_ne_nil c g
      · exact hgs g' hg'

theorem mem_groupings (h : groups.flatten = as) (hne : ∀ g ∈ groups, g ≠ []) :
    groups ∈ groupings as := by
  induction as generalizing groups with
  | nil =>
    cases groups with
    | nil => simp [groupings]
    | cons g gs => exact absurd (List.append_eq_nil_iff.mp h).1 (hne g (by simp))
  | cons a as ih =>
    obtain ⟨rest, hrest, hrestne, hgroups⟩ := groups_cases h hne
    rw [groupings, List.mem_flatMap]
    refine ⟨rest, ih hrest hrestne, ?_⟩
    rcases hgroups with rfl | ⟨g, gs, rfl, rfl⟩
    · cases rest with
      | nil => simp
      | cons g gs => simp
    · simp

end Groups

/-- A text whose first element is not in the front of another lies behind it. -/
theorem cons_infix_append_iff {a : α} {t w rest : List α} (ha : a ∉ w) :
    a :: t <:+: w ++ rest ↔ a :: t <:+: rest := by
  induction w with
  | nil => rfl
  | cons b w ih =>
    rw [List.mem_cons, not_or] at ha
    rw [List.cons_append, List.infix_cons_iff, List.cons_prefix_cons, ih ha.2]
    simp [ha.1]

end AdbClient.Support.Pieces
