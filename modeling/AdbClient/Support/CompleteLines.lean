import AdbClient.Support.Pieces

/-!
# Complete lines

A line is complete when its separator has been seen: the lines of a text are its
pieces without the last one. They are the same for a text read as a whole and for
one read part by part exactly when no part is cut off in the middle of a line.
-/
namespace AdbClient.Support.CompleteLines
open Pieces

variable {α : Type} {sep : α}

/-- A text ends in a separator when what is behind its first one is empty or does. -/
theorem suffix_cut_iff (w rest : List α) :
    [sep] <:+ w ++ sep :: rest ↔ rest = [] ∨ [sep] <:+ rest := by
  constructor
  · intro h
    rcases rest.eq_nil_or_concat with hnil | ⟨front, c, rfl⟩
    · exact .inl hnil
    · right
      rw [List.concat_eq_append] at h ⊢
      have hassoc : w ++ sep :: (front ++ [c]) = (w ++ sep :: front) ++ [c] := by simp
      rw [hassoc] at h
      have hlast := List.suffix_of_suffix_length_le h (List.suffix_append _ [c]) (by simp)
      rw [hlast.eq_of_length rfl]
      exact List.suffix_append front [c]
  · intro h
    rcases h with rfl | h
    · exact List.suffix_append w [sep]
    · exact h.trans ((List.suffix_cons sep rest).trans (List.suffix_append w _))

variable [DecidableEq α]

/-- The pieces in front of a separator. -/
def lines (sep : α) (s : List α) : List (List α) := (s.splitOn sep).dropLast

/-- Without a separator there is no line. -/
theorem lines_of_not_mem {w : List α} (hw : sep ∉ w) : lines sep w = [] := by
  rw [lines, List.splitOn_eq_singleton hw]
  rfl

/-- The first separator ends the first line. -/
theorem lines_cut {w : List α} (hw : sep ∉ w) (rest : List α) :
    lines sep (w ++ sep :: rest) = w :: lines sep rest := by
  rw [lines, List.splitOn_append_cons_self_of_not_mem hw,
    List.dropLast_cons_of_ne_nil (List.splitOn_ne_nil sep rest)]
  rfl

theorem lines_length (s : List α) : (lines sep s).length = s.count sep := by
  rw [lines, List.length_dropLast, splitOn_length, Nat.add_sub_cancel]

/-- What has been read as a line stays one. -/
theorem lines_prefix (a b : List α) : lines sep a <+: lines sep (a ++ b) := by
  induction a using separated_induction sep with
  | last w hw =>
    rw [lines_of_not_mem hw]
    exact List.nil_prefix
  | cut w rest hw ih =>
    rw [List.append_assoc, List.cons_append, lines_cut hw, lines_cut hw]
    exact List.cons_prefix_cons.mpr ⟨rfl, ih⟩

/-- A text cut off anywhere has the lines that are complete by then. -/
theorem lines_take (s : List α) (n : Nat) :
    lines sep (s.take n) = (lines sep s).take ((s.take n).count sep) := by
  have hprefix : lines sep (s.take n) <+: lines sep (s.take n ++ s.drop n) := lines_prefix _ _
  rw [List.take_append_drop] at hprefix
  rw [← lines_length]
  exact List.prefix_iff_eq_take.mp hprefix

/-- Reading in two parts finds the same lines exactly when the first part ends a
line or the second one ends none. -/
theorem lines_append_iff (a b : List α) :
    lines sep (a ++ b) = lines sep a ++ lines sep b ↔ a = [] ∨ [sep] <:+ a ∨ sep ∉ b := by
  induction a using separated_induction sep with
  | last w hw =>
    have hend : ¬ [sep] <:+ w := fun h => hw (h.subset (List.mem_singleton_self sep))
    rw [lines_of_not_mem hw, List.nil_append]
    by_cases hb : sep ∈ b
    · obtain ⟨v, rest, rfl, hv⟩ := List.eq_append_cons_of_mem hb
      have hwv : sep ∉ w ++ v := by
        rw [List.mem_append]
        exact not_or.mpr ⟨hw, hv⟩
      rw [← List.append_assoc, lines_cut hwv, lines_cut hv]
      simp [hend]
    · have hwb : sep ∉ w ++ b := by
        rw [List.mem_append]
        exact not_or.mpr ⟨hw, hb⟩
      rw [lines_of_not_mem hwb, lines_of_not_mem hb]
      exact iff_of_true rfl (.inr (.inr hb))
  | cut w rest hw ih =>
    rw [List.append_assoc, List.cons_append, lines_cut hw, lines_cut hw, List.cons_append,
      List.cons_inj_right, ih, suffix_cut_iff]
    simp [or_assoc]

end AdbClient.Support.CompleteLines
