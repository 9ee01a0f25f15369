import Mathlib.Data.List.TakeWhile

/-!
# Zero-terminated text in a finite memory

A C string has no length of its own: a reader walks the memory from a pointer on
until it meets the terminator. The memory here is the finite list of elements
from the pointer to the end of the object, and the terminator is any element `z`
of any type. A read that would leave the object is `none`; the C standard gives
it no meaning, so nothing is claimed about it.
-/
namespace AdbClient.Support.CString

section Walk
variable {α : Type} {p : α → Bool} {a : α}

/-- What lies behind the element a walk stops at does not matter. -/
theorem takeWhile_append_stop (ha : p a = false) (l rest : List α) :
    (l ++ a :: rest).takeWhile p = l.takeWhile p := by
  induction l with
  | nil => simp [ha]
  | cons b l ih => rw [List.cons_append, List.takeWhile_cons, List.takeWhile_cons, ih]

theorem dropWhile_append_stop (ha : p a = false) (l rest : List α) :
    (l ++ a :: rest).dropWhile p = l.dropWhile p ++ a :: rest := by
  induction l with
  | nil => simp [ha]
  | cons b l ih =>
    rw [List.cons_append, List.dropWhile_cons, List.dropWhile_cons, ih]
    split <;> rfl

end Walk

variable {α : Type} [DecidableEq α]

/-- The text from the pointer up to the terminator, exclusive. -/
def scan (z : α) : List α → Option (List α)
  | [] => none
  | a :: mem => if a = z then some [] else (scan z mem).map (a :: ·)

/-- `strcmp(mem, lit) == 0`: both sides end at their terminator. The literal is
written without its own terminator. -/
def equal (z : α) : List α → List α → Option Bool
  | [], _ => none
  | a :: mem, lit =>
      if a ≠ lit.headD z then some false
      else if a = z then some true
      else equal z mem lit.tail

/-- `strncmp(mem, lit, n) == 0`: the walk also stops after `n` elements. -/
def equalUpTo (z : α) : List α → List α → Nat → Option Bool
  | _, _, 0 => some true
  | [], _, _ + 1 => none
  | a :: mem, lit, n + 1 =>
      if a ≠ lit.headD z then some false
      else if a = z then some true
      else equalUpTo z mem lit.tail n

/-- The elements of a finite text before its first terminator, all of them when
it has none. -/
def upTo (z : α) (w : List α) : List α := w.takeWhile (· ≠ z)

@[simp] theorem upTo_nil (z : α) : upTo z [] = [] := rfl

theorem upTo_of_not_mem {z : α} {w : List α} (h : z ∉ w) : upTo z w = w := by
  rw [upTo, List.takeWhile_eq_self_iff]
  intro a ha
  simpa using ne_of_mem_of_not_mem ha h

theorem not_mem_upTo (z : α) (w : List α) : z ∉ upTo z w := by
  intro hz
  simpa using List.mem_takeWhile_imp hz

/-- A text goes on behind what is read of it with the terminator, or ends there. -/
theorem upTo_split (z : α) (w : List α) :
    ∃ rest, w = upTo z w ++ rest ∧ ∀ a ∈ rest.head?, a = z := by
  refine ⟨w.dropWhile (· ≠ z), List.takeWhile_append_dropWhile.symm, ?_⟩
  intro a ha
  have hstop := List.head?_dropWhile_not (· ≠ z) w
  rw [Option.mem_def.mp ha] at hstop
  simpa using hstop

theorem upTo_append (z : α) (w v : List α) :
    upTo z (w ++ v) = if z ∈ w then upTo z w else w ++ upTo z v := by
  split
  next hz =>
    obtain ⟨t, u, rfl⟩ := List.append_of_mem hz
    rw [List.append_assoc, List.cons_append, upTo, upTo, takeWhile_append_stop (by simp),
      takeWhile_append_stop (by simp)]
  next hz =>
    rw [upTo, List.takeWhile_append_of_pos]
    · rfl
    · intro a ha
      simpa using ne_of_mem_of_not_mem ha hz

/-- A text followed by a terminator reads back up to its own first terminator,
whatever lies behind. -/
theorem scan_append (z : α) (w rest : List α) :
    scan z (w ++ z :: rest) = some (upTo z w) := by
  induction w with
  | nil => simp [scan]
  | cons a w ih =>
    by_cases h : a = z
    · simp [scan, upTo, h]
    · simp only [List.cons_append, scan, if_neg h, ih, Option.map_some]
      simp [upTo, h]

/-- In a memory of nothing but the text the walk ends at a terminator of the text
or leaves it. -/
theorem scan_eq (z : α) (w : List α) : scan z w = if z ∈ w then some (upTo z w) else none := by
  induction w with
  | nil => simp [scan]
  | cons a w ih =>
    by_cases h : a = z
    · simp [scan, upTo, h]
    · simp only [scan, if_neg h, ih, List.mem_cons, Ne.symm h, false_or]
      split
      · simp [upTo, h]
      · rfl

/-- A bounded comparison against a whole literal of `n` elements is a prefix test
on the text, also when the text is shorter and the walk ends at a terminator. -/
theorem equalUpTo_append {z : α} (lit w rest : List α) (hlit : z ∉ lit) :
    equalUpTo z (w ++ z :: rest) lit lit.length = some (decide (lit <+: w)) := by
  induction lit generalizing w with
  | nil => simp [equalUpTo]
  | cons b lit ih =>
    simp only [List.mem_cons, not_or] at hlit
    cases w with
    | nil => simp [equalUpTo, hlit.1]
    | cons a w =>
      by_cases hab : a = b
      · subst a
        simp only [List.cons_append, List.length_cons, equalUpTo, List.headD_cons, ne_eq,
          not_true_eq_false, if_false, if_neg (Ne.symm hlit.1), List.tail_cons, ih w hlit.2]
        simp [List.cons_prefix_cons]
      · simp [equalUpTo, hab, List.cons_prefix_cons, Ne.symm hab]

/-- It needs no terminator when the text is as long as the literal. -/
theorem equalUpTo_of_length_le {z : α} {lit w : List α} (hlit : z ∉ lit)
    (hlen : lit.length ≤ w.length) :
    equalUpTo z w lit lit.length = some (decide (lit <+: w)) := by
  induction lit generalizing w with
  | nil => simp [equalUpTo]
  | cons b lit ih =>
    simp only [List.mem_cons, not_or] at hlit
    cases w with
    | nil => simp at hlen
    | cons a w =>
      by_cases hab : a = b
      · subst a
        have hrest := ih hlit.2 (Nat.le_of_succ_le_succ hlen)
        simp only [List.length_cons, equalUpTo, List.headD_cons, ne_eq, not_true_eq_false,
          if_false, if_neg (Ne.symm hlit.1), List.tail_cons, hrest]
        simp [List.cons_prefix_cons]
      · simp [equalUpTo, hab, List.cons_prefix_cons, Ne.symm hab]

/-- An unbounded comparison tests the text up to its first terminator. -/
theorem equal_append {z : α} (lit w rest : List α) (hlit : z ∉ lit) :
    equal z (w ++ z :: rest) lit = some (decide (upTo z w = lit)) := by
  induction w generalizing lit with
  | nil => cases lit <;> simp_all [equal]
  | cons a w ih =>
    cases lit with
    | nil =>
      by_cases h : a = z
      · simp [equal, upTo, h]
      · simp [equal, upTo, h]
    | cons b lit =>
      simp only [List.mem_cons, not_or] at hlit
      by_cases hab : a = b
      · subst a
        have hz : b ≠ z := Ne.symm hlit.1
        simp only [List.cons_append, equal, List.headD_cons, ne_eq, not_true_eq_false,
          if_false, if_neg hz, List.tail_cons, ih lit hlit.2]
        simp [upTo, hz]
      · by_cases h : a = z
        · simp [equal, upTo, h, hlit.1]
        · simp [equal, upTo, h, hab]

end AdbClient.Support.CString
