import AdbClient.Source.StringPrintf

/-!
# Formatted text, in one pass or two

The text that `StringPrintf` returns does not depend on the pass that wrote it nor
on what was in the buffers: it is the whole formatted text, for every length an
`int` can count with one to spare. Up to 1023 characters it is taken from the fixed
buffer, from there on from a new one of its own length. At the length where the
terminator no longer fits the count, the size of the second buffer overflows; beyond
it nothing is appended. The length of every request is printed in the first pass.
-/
namespace AdbClient.Guarantees.FormattedText
open Source

/-- What is appended for a format. -/
def appended (dst : Bytes) : Option Bytes → Except Fault Bytes
  | none => .ok dst
  | some text =>
      if text.length + 1 < 2 ^ 31 then .ok (dst ++ text)
      else if text.length + 1 = 2 ^ 31 then .error .overflow
      else .ok dst

/-- The buffer a text is appended from: the fixed one when the terminator fits in it
as well, otherwise a new one with room for both. -/
def buffer (text space : Bytes) (heap : Nat → Bytes) : Bytes :=
  if text.length < 1024 then space else heap (text.length + 1)

section Pass
variable {text : Bytes}

/-- A buffer with room for the terminator holds the text. -/
theorem vsnprintf_fits {memory : Bytes} (hint : text.length < 2 ^ 31)
    (hroom : text.length < memory.length) :
    (vsnprintf (some text) memory).2.take text.length = text := by
  have hwhole : text.take (memory.length - 1) = text := List.take_of_length_le (by omega)
  simp only [vsnprintf, if_pos hint, hwhole, List.append_assoc, List.take_left]

/-- The length is returned whatever the buffer. -/
theorem vsnprintf_result (hint : text.length < 2 ^ 31) (memory : Bytes) :
    (vsnprintf (some text) memory).1 = text.length := by
  simp only [vsnprintf, if_pos hint]

end Pass

section Append
variable {dst text space : Bytes} {heap : Nat → Bytes}

/-- The first pass is enough. -/
theorem stringAppendV_small (hsmall : text.length < 1024) :
    stringAppendV dst (some text) space heap =
      .ok (dst ++ (vsnprintf (some text) space).2.take text.length) := by
  have hint : text.length < 2 ^ 31 := by omega
  have hresult := vsnprintf_result hint space
  unfold stringAppendV
  simp only [hresult, Int.toNat_natCast, Int.natCast_nonneg, if_true]
  exact if_pos (by omega)

/-- The second pass has room for all of it. -/
theorem stringAppendV_large (hlarge : 1024 ≤ text.length) (hint : text.length + 1 < 2 ^ 31) :
    stringAppendV dst (some text) space heap =
      .ok (dst ++ (vsnprintf (some text) (heap (text.length + 1))).2.take text.length) := by
  have hsecond : ((text.length : Int) + 1).toNat = text.length + 1 := by omega
  have hint' : text.length < 2 ^ 31 := by omega
  have hfirst := vsnprintf_result hint' space
  have hresult := vsnprintf_result hint' (heap (text.length + 1))
  unfold stringAppendV
  simp only [hfirst, hsecond, hresult, Int.toNat_natCast]
  rw [if_neg (by omega), if_neg (by omega), if_pos (by omega)]

/-- Either way the text is the one its buffer holds after the pass. -/
theorem stringAppendV_buffer (hint : text.length + 1 < 2 ^ 31) :
    stringAppendV dst (some text) space heap =
      .ok (dst ++ (vsnprintf (some text) (buffer text space heap)).2.take text.length) := by
  unfold buffer
  by_cases hsmall : text.length < 1024
  · rw [if_pos hsmall]
    exact stringAppendV_small hsmall
  · rw [if_neg hsmall]
    exact stringAppendV_large (by omega) hint

/-- Each buffer has room for the text that is taken from it. -/
theorem length_lt_buffer (text : Bytes) (hspace : space.length = 1024)
    (hheap : ∀ n, (heap n).length = n) : text.length < (buffer text space heap).length := by
  unfold buffer
  split
  · omega
  · rw [hheap]
    exact Nat.lt_succ_self _

/-- So it is appended whole. -/
theorem stringAppendV_whole (hint : text.length + 1 < 2 ^ 31) (hspace : space.length = 1024)
    (hheap : ∀ n, (heap n).length = n) :
    stringAppendV dst (some text) space heap = .ok (dst ++ text) := by
  have hroom := length_lt_buffer text hspace hheap
  rw [stringAppendV_buffer hint, vsnprintf_fits (by omega) hroom]

/-- The `int` that would count the terminator does not exist. -/
theorem stringAppendV_overflow (hmax : text.length + 1 = 2 ^ 31) :
    stringAppendV dst (some text) space heap = .error .overflow := by
  have hint : text.length < 2 ^ 31 := by omega
  have hfirst := vsnprintf_result hint space
  unfold stringAppendV
  simp only [hfirst]
  rw [if_neg (by omega), if_pos (by omega)]

/-- Nor is there one for a longer text. -/
theorem stringAppendV_uncounted (hlong : ¬ text.length < 2 ^ 31) :
    stringAppendV dst (some text) space heap = .ok dst := by
  have hfirst : vsnprintf (some text) space = (-1, space) := by
    simp only [vsnprintf, if_neg hlong]
  unfold stringAppendV
  simp only [hfirst]
  rw [if_pos (by omega), if_neg (by omega)]

end Append

/-- The length of a request never has more than eight digits. -/
theorem stringPrintf04x_length (n : Nat) : (stringPrintf04x n).length ≤ 8 := by
  have hbound : n % 2 ^ 32 < hexadecimal.base ^ 8 := Nat.mod_lt _ (by decide)
  have hdigits := (Nat.digits_length_le_iff hexadecimal.one_lt _).mpr hbound
  have hwidth := hexadecimal.print_length 4 (n % 2 ^ 32)
  unfold stringPrintf04x
  omega

/-- **Both passes append the same text.** For every text, every string appended to
and whatever the two buffers held: the text is appended whole up to a length of
`2 ^ 31 - 2`; at `2 ^ 31 - 1` the size of the second buffer overflows; a longer text
or an error of the format leaves the string as it is. What is appended is what the
first pass wrote for a text of less than 1024 characters and what the second one wrote
for a longer text; so the prefix of a request always comes from the first. -/
theorem stringAppendV_eq (dst : Bytes) (formatted : Option Bytes) {space : Bytes}
    {heap : Nat → Bytes} (hspace : space.length = 1024) (hheap : ∀ n, (heap n).length = n) :
    stringAppendV dst formatted space heap = appended dst formatted ∧
      (∀ text, formatted = some text → text.length + 1 < 2 ^ 31 →
        stringAppendV dst formatted space heap =
          .ok (dst ++ (vsnprintf formatted (buffer text space heap)).2.take text.length)) ∧
      ∀ n, buffer (stringPrintf04x n) space heap = space ∧
        stringPrintf (some (stringPrintf04x n)) space heap = .ok (stringPrintf04x n) := by
  refine ⟨?_, ?_, ?_⟩
  · cases formatted with
    | none => simp [stringAppendV, vsnprintf, appended]
    | some text =>
      simp only [appended]
      by_cases hint : text.length + 1 < 2 ^ 31
      · rw [if_pos hint]
        exact stringAppendV_whole hint hspace hheap
      · rw [if_neg hint]
        by_cases hmax : text.length + 1 = 2 ^ 31
        · rw [if_pos hmax]
          exact stringAppendV_overflow hmax
        · rw [if_neg hmax]
          exact stringAppendV_uncounted (by omega)
  · rintro text rfl hint
    exact stringAppendV_buffer hint
  · intro n
    have hsmall : (stringPrintf04x n).length < 1024 :=
      Nat.lt_of_le_of_lt (stringPrintf04x_length n) (by decide)
    exact ⟨if_pos hsmall, stringAppendV_whole (by omega) hspace hheap⟩

/-- A text for which the second pass is needed. -/
theorem stringAppendV_eq_long :
    stringAppendV (ascii "x") (some (List.replicate 2000 97)) (List.replicate 1024 205)
        (fun n => List.replicate n 205) =
      appended (ascii "x") (some (List.replicate 2000 97)) :=
  (stringAppendV_eq _ _ List.length_replicate fun _ => List.length_replicate).1

end AdbClient.Guarantees.FormattedText
