import Mathlib.Data.Nat.Digits.Lemmas

/-!
# Zero-padded positional numerals

Numerals of a base `b` over an arbitrary alphabet of glyphs, most significant
digit first, padded with the glyph of zero to a minimal width. Padding never
truncates: a number that needs more digits than the width gets them all, so the
first `width` glyphs of a long numeral denote a smaller number.
-/
namespace AdbClient.Support.Numeral

/-- The number a digit list denotes, most significant digit first. -/
def value (b : Nat) (ds : List Nat) : Nat := ds.foldl (fun acc d => acc * b + d) 0

@[simp] theorem value_nil (b : Nat) : value b [] = 0 := rfl

theorem foldl_value (b acc : Nat) (ds : List Nat) :
    ds.foldl (fun acc d => acc * b + d) acc = acc * b ^ ds.length + value b ds := by
  induction ds generalizing acc with
  | nil => simp
  | cons d ds ih =>
    simp only [List.foldl_cons, List.length_cons, value]
    rw [ih (acc * b + d), ih (0 * b + d), Nat.pow_succ]
    ring

theorem value_append (b : Nat) (xs ys : List Nat) :
    value b (xs ++ ys) = value b xs * b ^ ys.length + value b ys := by
  rw [value, List.foldl_append, foldl_value]
  rfl

theorem value_singleton (b d : Nat) : value b [d] = d := by simp [value]

/-- The digits of `n`, at least `width` of them. -/
def digits (b width n : Nat) : List Nat := (b.digits n).reverse.leftpad width 0

theorem value_replicate_zero (b k : Nat) : value b (List.replicate k 0) = 0 := by
  induction k with
  | zero => rfl
  | succ k ih => rw [List.replicate_succ', value_append, ih, value_singleton]; simp

theorem value_reverse (b : Nat) (ds : List Nat) : value b ds.reverse = Nat.ofDigits b ds := by
  induction ds with
  | nil => simp
  | cons d ds ih =>
    rw [List.reverse_cons, value_append, ih, value_singleton, Nat.ofDigits_cons]
    simp only [List.length_singleton, pow_one]
    ring

theorem value_digits (b width n : Nat) : value b (digits b width n) = n := by
  rw [digits, List.leftpad, value_append, value_replicate_zero, value_reverse,
    Nat.ofDigits_digits]
  simp

theorem digits_length (b width n : Nat) :
    (digits b width n).length = max width (b.digits n).length := by
  rw [digits, List.length_leftpad, List.length_reverse]

theorem digits_length_of_lt {b width n : Nat} (hb : 1 < b) (h : n < b ^ width) :
    (digits b width n).length = width := by
  rw [digits_length, Nat.max_eq_left]
  exact (Nat.digits_length_le_iff hb n).mpr h

theorem digits_lt {b width n d : Nat} (hb : 1 < b) (hd : d ∈ digits b width n) : d < b := by
  rw [digits, List.leftpad, List.mem_append, List.mem_reverse] at hd
  rcases hd with hd | hd
  · rw [List.eq_of_mem_replicate hd]
    omega
  · exact Nat.digits_lt_base hb hd

/-- A glyph for each digit of a base, read back without error. -/
structure Alphabet (α : Type) where
  base : Nat
  one_lt : 1 < base
  glyph : Nat → α
  digit : α → Option Nat
  digit_glyph : ∀ d, d < base → digit (glyph d) = some d

variable {α : Type}

namespace Alphabet

def print (A : Alphabet α) (width n : Nat) : List α := (digits A.base width n).map A.glyph

/-- Reads a text all of whose elements are glyphs. -/
def parse (A : Alphabet α) (s : List α) : Option Nat :=
  (s.mapM A.digit).map (value A.base)

theorem mapM_digit (A : Alphabet α) {ds : List Nat} (h : ∀ d ∈ ds, d < A.base) :
    (ds.map A.glyph).mapM A.digit = some ds := by
  induction ds with
  | nil => rfl
  | cons d ds ih =>
    have hd := A.digit_glyph d (h d (by simp))
    have hds := ih (fun e he => h e (by simp [he]))
    simp [List.mapM_cons, hd, hds]

theorem parse_map (A : Alphabet α) {ds : List Nat} (h : ∀ d ∈ ds, d < A.base) :
    A.parse (ds.map A.glyph) = some (value A.base ds) := by
  rw [parse, A.mapM_digit h]
  rfl

theorem parse_print (A : Alphabet α) (width n : Nat) : A.parse (A.print width n) = some n := by
  rw [print, A.parse_map (fun _ hd => digits_lt A.one_lt hd), value_digits]

theorem print_length (A : Alphabet α) (width n : Nat) :
    (A.print width n).length = max width (A.base.digits n).length := by
  rw [print, List.length_map, digits_length]

theorem width_le_print_length (A : Alphabet α) (width n : Nat) :
    width ≤ (A.print width n).length := by
  rw [A.print_length]
  exact Nat.le_max_left _ _

theorem print_length_of_lt (A : Alphabet α) (width : Nat) {n : Nat} (h : n < A.base ^ width) :
    (A.print width n).length = width := by
  rw [print, List.length_map, digits_length_of_lt A.one_lt h]

/-- Numbers too large for the width print longer than it. -/
theorem lt_print_length (A : Alphabet α) {width n : Nat} (h : A.base ^ width ≤ n) :
    width < (A.print width n).length := by
  rw [A.print_length]
  exact Nat.lt_of_lt_of_le ((Nat.lt_digits_length_iff A.one_lt n).mpr h) (Nat.le_max_right _ _)

/-- The first `width` glyphs of a numeral that overflows its width denote a
strictly smaller number: the digits cut off were worth at least one more. -/
theorem parse_take_lt (A : Alphabet α) {width n : Nat} (h : A.base ^ width ≤ n) :
    ∃ k, A.parse ((A.print width n).take width) = some k ∧ k < n := by
  have hlen := A.lt_print_length h
  rw [print, List.length_map] at hlen
  let high := (digits A.base width n).take width
  let low := (digits A.base width n).drop width
  have split : high ++ low = digits A.base width n := List.take_append_drop _ _
  have hlow : low.length ≠ 0 := by
    simp only [low, List.length_drop]
    omega
  have hsum : value A.base high * A.base ^ low.length + value A.base low = n := by
    rw [← value_append, split, value_digits]
  have hpos : 0 < n := Nat.lt_of_lt_of_le (Nat.pow_pos (by have := A.one_lt; omega)) h
  have hpow : 1 < A.base ^ low.length := Nat.one_lt_pow hlow A.one_lt
  refine ⟨value A.base high, ?_, ?_⟩
  · rw [print, ← List.map_take]
    exact A.parse_map (fun d hd => digits_lt A.one_lt (List.mem_of_mem_take hd))
  · by_contra hge
    have hn : n ≤ value A.base high := Nat.le_of_not_lt hge
    have hmul : n * 2 ≤ value A.base high * A.base ^ low.length := Nat.mul_le_mul hn hpow
    omega

/-- Every element of a printed numeral is the glyph of some digit. -/
theorem mem_print (A : Alphabet α) {width n : Nat} {a : α} (h : a ∈ A.print width n) :
    ∃ d, d < A.base ∧ A.glyph d = a := by
  obtain ⟨d, hd, rfl⟩ := List.mem_map.mp h
  exact ⟨d, digits_lt A.one_lt hd, rfl⟩

end Alphabet
end AdbClient.Support.Numeral
