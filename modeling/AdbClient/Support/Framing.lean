import Mathlib.Data.List.Basic
import AdbClient.Support.Numeral

/-!
# Length-prefixed framing

A frame is a header of fixed width that carries the length of a payload, then the
payload. The writer prints the header with no check that the length fits its
width; the reader always takes exactly `width` elements. The theorem of this
module says when a concatenation of such frames still reads back.
-/
namespace AdbClient.Support.Framing

/-- A printed length and its reader. `bound` is the first length that does not
fit; an over-long header is only asked not to denote its own number by accident
in its first `width` elements. -/
structure LengthHeader (α : Type) where
  width : Nat
  width_pos : 0 < width
  bound : Nat
  encode : Nat → List α
  decode : List α → Option Nat
  encode_length : ∀ n, n < bound → (encode n).length = width
  decode_encode : ∀ n, n < bound → decode (encode n) = some n
  decode_overflow : ∀ n rest, bound ≤ n → decode ((encode n ++ rest).take width) ≠ some n

variable {α : Type}

namespace LengthHeader

def frame (H : LengthHeader α) (payload : List α) : List α :=
  H.encode payload.length ++ payload

/-- Reads a header, then as many elements as it says, until the stream is used
up. A short header, a header that is no length and a short payload are errors. -/
def decodeAll (H : LengthHeader α) (stream : List α) : Option (List (List α)) :=
  if stream = [] then some []
  else if stream.length < H.width then none
  else
    match H.decode (stream.take H.width) with
    | none => none
    | some n =>
        if (stream.drop H.width).length < n then none
        else
          (decodeAll H ((stream.drop H.width).drop n)).map
            ((stream.drop H.width).take n :: ·)
termination_by stream.length
decreasing_by
  have := H.width_pos
  simp only [List.length_drop]
  omega

@[simp] theorem decodeAll_nil (H : LengthHeader α) : H.decodeAll [] = some [] := by
  unfold decodeAll
  exact if_pos rfl

/-- One frame that fits is taken off the stream whole. -/
theorem decodeAll_frame (H : LengthHeader α) {payload : List α} (rest : List α)
    (h : payload.length < H.bound) :
    H.decodeAll (H.frame payload ++ rest) = (H.decodeAll rest).map (payload :: ·) := by
  have hlen := H.encode_length _ h
  have htake : (H.frame payload ++ rest).take H.width = H.encode payload.length := by
    rw [frame, List.append_assoc, ← hlen, List.take_left]
  have hdrop : (H.frame payload ++ rest).drop H.width = payload ++ rest := by
    rw [frame, List.append_assoc, ← hlen, List.drop_left]
  have hlong : ¬ (H.frame payload ++ rest).length < H.width := by
    simp only [frame, List.length_append, hlen]
    omega
  have hne : H.frame payload ++ rest ≠ [] := by
    intro hnil
    rw [hnil, List.length_nil] at hlong
    exact hlong H.width_pos
  rw [decodeAll, if_neg hne, if_neg hlong, htake, H.decode_encode _ h, hdrop]
  simp

/-- The first payload read off an over-long frame, if any, has another length
than the payload written. -/
theorem decodeAll_overflow (H : LengthHeader α) {payload : List α} (rest : List α)
    (tail : List (List α)) (h : H.bound ≤ payload.length) :
    H.decodeAll (H.frame payload ++ rest) ≠ some (payload :: tail) := by
  intro hdec
  rw [decodeAll] at hdec
  split at hdec
  · simp at hdec
  · split at hdec
    · cases hdec
    · split at hdec
      · cases hdec
      next n hn =>
        split at hdec
        · cases hdec
        next hshort =>
          obtain ⟨tail', -, hcons⟩ := Option.map_eq_some_iff.mp hdec
          have hpay := (List.cons.inj hcons).1
          have hlen : n = payload.length := by
            rw [← hpay, List.length_take]
            omega
          rw [frame, List.append_assoc, hlen] at hn
          exact H.decode_overflow _ _ h hn

/-- A stream of frames reads back as the payloads written exactly when every
payload length fits the header. -/
theorem decodeAll_frames_iff (H : LengthHeader α) (payloads : List (List α)) :
    H.decodeAll (payloads.flatMap H.frame) = some payloads ↔
      ∀ p ∈ payloads, p.length < H.bound := by
  induction payloads with
  | nil => simp
  | cons p ps ih =>
    rw [List.flatMap_cons, List.forall_mem_cons]
    by_cases hp : p.length < H.bound
    · rw [H.decodeAll_frame _ hp, ← ih]
      simp [hp]
    · simp only [hp, false_and, iff_false]
      exact H.decodeAll_overflow _ _ (Nat.le_of_not_lt hp)

end LengthHeader

open Numeral in
/-- Zero-padded numerals of a width are a length header: the lengths that fit are
those of at most `width` digits. `wrap` is what the printer does to a number
before it prints it; it may only lose value, and never on a number that fits. -/
def numeralHeader (A : Alphabet α) (width : Nat) (hw : 0 < width) (wrap : Nat → Nat)
    (wrap_le : ∀ n, wrap n ≤ n) (wrap_fits : ∀ n, n < A.base ^ width → wrap n = n) :
    LengthHeader α where
  width := width
  width_pos := hw
  bound := A.base ^ width
  encode n := A.print width (wrap n)
  decode := A.parse
  encode_length n hn := by rw [wrap_fits n hn, A.print_length_of_lt width hn]
  decode_encode n hn := by rw [wrap_fits n hn, A.parse_print]
  decode_overflow n rest hn := by
    rw [List.take_append_of_le_length (A.width_le_print_length _ _)]
    intro hparse
    by_cases hfits : wrap n < A.base ^ width
    · have hall : (A.print width (wrap n)).length ≤ width := (A.print_length_of_lt width hfits).le
      rw [List.take_of_length_le hall, A.parse_print] at hparse
      have := Option.some.inj hparse
      omega
    · obtain ⟨k, hk, hlt⟩ := A.parse_take_lt (Nat.le_of_not_lt hfits)
      rw [hk] at hparse
      have := Option.some.inj hparse
      have := wrap_le n
      omega

end AdbClient.Support.Framing
