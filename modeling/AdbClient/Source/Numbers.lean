import AdbClient.Source.ReadBuffer
import AdbClient.Support.Framing

/-!
# Numbers in text: printf, std::format, atoi, stoi

`StringPrintf("%04x", n)` is called with a `size_t` where `%x` reads an
`unsigned int`: the low 32 bits are printed. `%04x` pads to four digits and does
not truncate. `atoi` and `std::stoi` are the C and C++ library functions; what
does not fit an `int` is undefined for the first and an exception for the second.
-/
namespace AdbClient.Source
open Support Support.Numeral

def hexGlyph (d : Nat) : Byte := UInt8.ofNat (if d < 10 then 48 + d else 87 + d)

/-- Both cases are read, only lower case is written. -/
def hexDigit (c : Byte) : Option Nat :=
  if 48 ≤ c.toNat ∧ c.toNat ≤ 57 then some (c.toNat - 48)
  else if 97 ≤ c.toNat ∧ c.toNat ≤ 102 then some (c.toNat - 87)
  else if 65 ≤ c.toNat ∧ c.toNat ≤ 70 then some (c.toNat - 55)
  else none

def hexadecimal : Alphabet Byte where
  base := 16
  one_lt := by decide
  glyph := hexGlyph
  digit := hexDigit
  digit_glyph := by decide

def decimalDigit (c : Byte) : Option Nat :=
  if 48 ≤ c.toNat ∧ c.toNat ≤ 57 then some (c.toNat - 48) else none

def decimal : Alphabet Byte where
  base := 10
  one_lt := by decide
  glyph := hexGlyph
  digit := decimalDigit
  digit_glyph := by decide

/-- `StringPrintf("%04x", n)`. -/
def stringPrintf04x (n : Nat) : Bytes := hexadecimal.print 4 (n % 2 ^ 32)

/-- `StringPrintf("%04x", s.length()).append(s)`: every request is sent so. -/
def frame (s : Bytes) : Bytes := stringPrintf04x s.length ++ s

/-- `std::format("{0}", n)` of an unsigned integer. -/
def formatUnsigned (n : Nat) : Bytes := decimal.print 1 n

/-- `isspace` in the C locale. -/
def isSpace (c : Byte) : Bool := c = 32 || (9 ≤ c.toNat && c.toNat ≤ 13)

/-- An optional sign, then the rest. -/
def takeSign : Bytes → Bool × Bytes
  | c :: s => if c = 45 then (true, s) else if c = 43 then (false, s) else (false, c :: s)
  | [] => (false, [])

/-- The longest prefix of digits of the alphabet. -/
def leadingDigits (A : Alphabet Byte) (s : Bytes) : List Nat :=
  (s.map A.digit |>.takeWhile Option.isSome).filterMap id

def signed (negative : Bool) (n : Nat) : Int := if negative then -n else n

/-- `strtol` skips the prefix `0x` only in front of a digit. -/
def dropHexPrefix (s : Bytes) : Bytes :=
  match s with
  | 48 :: x :: c :: rest =>
      if (x = 120 ∨ x = 88) ∧ (hexDigit c).isSome then c :: rest else s
  | _ => s

def fitsInt (v : Int) : Prop := -2 ^ 31 ≤ v ∧ v < 2 ^ 31

instance (v : Int) : Decidable (fitsInt v) := inferInstanceAs (Decidable (_ ∧ _))

/-- `std::atoi(s.c_str())`: no digits give zero, a value out of range is
undefined. -/
def atoi (s : Bytes) : Except Fault Int :=
  let (negative, rest) := takeSign ((text s).dropWhile isSpace)
  let v := signed negative (value 10 (leadingDigits decimal rest))
  if fitsInt v then .ok v else .error .overflow

/-- `std::stoi(s, nullptr, 16)`. -/
def stoi16 (s : Bytes) : Except Fault Int :=
  let (negative, rest) := takeSign ((text s).dropWhile isSpace)
  let ds := leadingDigits hexadecimal (dropHexPrefix rest)
  let v := signed negative (value 16 ds)
  if ds = [] then .error .invalidArgument
  else if fitsInt v then .ok v else .error .outOfRange

/-- No digit of a printed length is a zero byte or a letter of a status. -/
theorem mem_hexadecimal_print {width n : Nat} {c : Byte} (h : c ∈ hexadecimal.print width n) :
    (hexDigit c).isSome ∧ (c.toNat ≤ 57 ∨ 97 ≤ c.toNat) := by
  obtain ⟨d, hd, rfl⟩ := hexadecimal.mem_print h
  clear h
  revert d
  decide

theorem leadingDigits_map (A : Alphabet Byte) {ds : List Nat} (h : ∀ d ∈ ds, d < A.base) :
    leadingDigits A (ds.map A.glyph) = ds := by
  induction ds with
  | nil => rfl
  | cons d ds ih =>
    have hd := A.digit_glyph d (h d (by simp))
    have hds := ih (fun e he => h e (by simp [he]))
    simp only [leadingDigits, List.map_cons, hd, Option.isSome_some, List.takeWhile_cons_of_pos,
      List.filterMap_cons_some (f := id) rfl] at hds ⊢
    rw [hds]

theorem takeSign_digit {c : Byte} {s : Bytes} (h : 48 ≤ c.toNat) :
    takeSign (c :: s) = (false, c :: s) := by
  have h45 : c ≠ 45 := by rintro rfl; revert h; decide
  have h43 : c ≠ 43 := by rintro rfl; revert h; decide
  simp [takeSign, h45, h43]

/-- A text of digits has no terminator, space or sign to stop at or to skip. -/
theorem takeSign_numeral {s : Bytes} (hne : s ≠ []) (h : ∀ c ∈ s, 48 ≤ c.toNat) :
    takeSign ((text s).dropWhile isSpace) = (false, s) := by
  have htext : text s = s := by
    apply text_eq_self
    intro hz
    have := h 0 hz
    simp at this
  obtain ⟨c, s, rfl⟩ := List.exists_cons_of_ne_nil hne
  have hc := h c (by simp)
  have hspace : isSpace c = false := by
    have h32 : c ≠ 32 := by rintro rfl; revert hc; decide
    simp only [isSpace, h32, decide_false, Bool.false_or, Bool.and_eq_false_iff,
      decide_eq_false_iff_not]
    omega
  rw [htext, List.dropWhile_cons_of_neg (by simp [hspace]), takeSign_digit hc]

theorem mem_formatUnsigned {n : Nat} {c : Byte} (h : c ∈ formatUnsigned n) :
    48 ≤ c.toNat ∧ c.toNat ≤ 57 := by
  obtain ⟨d, hd, rfl⟩ := decimal.mem_print h
  clear h
  revert d
  decide

theorem print_ne_nil (A : Alphabet Byte) {width n : Nat} (h : 0 < width) :
    A.print width n ≠ [] := by
  intro hnil
  have := A.width_le_print_length width n
  rw [hnil, List.length_nil] at this
  omega

/-- `atoi` undoes `std::format` on every number an `int` holds. -/
theorem atoi_formatUnsigned {n : Nat} (h : n < 2 ^ 31) :
    atoi (formatUnsigned n) = .ok (n : Int) := by
  have hds : leadingDigits decimal (formatUnsigned n) = digits 10 1 n :=
    leadingDigits_map decimal (fun _ hd => digits_lt decimal.one_lt hd)
  have hsign := takeSign_numeral (print_ne_nil decimal Nat.one_pos)
    (fun c hc => (mem_formatUnsigned (n := n) hc).1)
  rw [← formatUnsigned] at hsign
  have hfits : fitsInt (n : Int) := by
    constructor <;> omega
  simp only [atoi, hsign, hds, value_digits, signed, Bool.false_eq_true, if_false, if_pos hfits]

theorem leadingDigits_stop {A : Alphabet Byte} {c : Byte} (hc : A.digit c = none)
    (s rest : Bytes) : leadingDigits A (s ++ c :: rest) = leadingDigits A s := by
  unfold leadingDigits
  rw [List.map_append, List.map_cons, hc, CString.takeWhile_append_stop rfl]

theorem takeSign_colon (s rest : Bytes) :
    takeSign (s ++ 58 :: rest) = ((takeSign s).1, (takeSign s).2 ++ 58 :: rest) := by
  cases s with
  | nil => rfl
  | cons c s =>
    simp only [List.cons_append, takeSign]
    split
    · rfl
    · split <;> rfl

/-- A colon is no space, no sign and no digit: `atoi` stops at it. -/
theorem atoi_colon (s rest : Bytes) : atoi (s ++ 58 :: rest) = atoi s := by
  have htext : text (s ++ 58 :: rest) = if 0 ∈ s then text s else s ++ text (58 :: rest) :=
    CString.upTo_append 0 s (58 :: rest)
  have hcolon : text (58 :: rest) = 58 :: text rest := by
    simp [text, CString.upTo]
  unfold atoi
  by_cases hz : 0 ∈ s
  · rw [htext, if_pos hz]
  · rw [htext, if_neg hz, hcolon, CString.dropWhile_append_stop (by decide), takeSign_colon,
      text_eq_self hz]
    simp only [leadingDigits_stop (A := decimal) (c := 58) (by decide)]

theorem le_of_hexDigit {c : Byte} (h : (hexDigit c).isSome) : 48 ≤ c.toNat := by
  by_contra hlow
  have hnone : hexDigit c = none := by
    rw [hexDigit, if_neg (by omega), if_neg (by omega), if_neg (by omega)]
  rw [hnone] at h
  cases h

/-- No `0x` is taken off a text of hexadecimal digits. -/
theorem dropHexPrefix_of_digits {s : Bytes} (h : ∀ c ∈ s, (hexDigit c).isSome) :
    dropHexPrefix s = s := by
  unfold dropHexPrefix
  split
  next x c rest =>
    have hx : ¬ (x = 120 ∨ x = 88) := by
      intro hx
      have hdigit := h x (by simp)
      rcases hx with rfl | rfl
      · exact absurd hdigit (by decide)
      · exact absurd hdigit (by decide)
    rw [if_neg fun hboth => hx hboth.1]
  next => rfl

/-- `std::stoi` undoes `%04x` on every number an `int` holds. -/
theorem stoi16_stringPrintf04x {n : Nat} (h : n < 2 ^ 31) :
    stoi16 (stringPrintf04x n) = .ok (n : Int) := by
  have hprint : stringPrintf04x n = hexadecimal.print 4 n := by
    rw [stringPrintf04x, Nat.mod_eq_of_lt (by omega)]
  have hdigit : ∀ c ∈ hexadecimal.print 4 n, (hexDigit c).isSome :=
    fun c hc => (mem_hexadecimal_print hc).1
  have hds : leadingDigits hexadecimal (hexadecimal.print 4 n) = digits 16 4 n :=
    leadingDigits_map hexadecimal (fun _ hd => digits_lt hexadecimal.one_lt hd)
  have hne : digits 16 4 n ≠ [] := by
    intro hnil
    have := digits_length 16 4 n
    rw [hnil, List.length_nil] at this
    omega
  have hsign := takeSign_numeral (print_ne_nil hexadecimal (by decide : 0 < 4))
    (fun c hc => le_of_hexDigit (hdigit c hc))
  have hfits : fitsInt (n : Int) := by
    constructor <;> omega
  simp only [hprint, stoi16, hsign, dropHexPrefix_of_digits hdigit, hds,
    value_digits, signed, Bool.false_eq_true, if_false, if_neg hne, if_pos hfits]

end AdbClient.Source
