import AdbClient.Abstract.Reply

/-!
# What `read_protocol_string` changes

The two strings are only appended to, and at most one of them: the error by a
message that begins with `FAIL`, the result by any other. What is appended is one
piece of the message. A host operation that meets nothing but refusals therefore
leaves its outputs as they were.
-/
namespace AdbClient.Guarantees.ProtocolString
open Source Abstract Support

/-- Nothing but zero bytes behind the message: one at least, and up to the offsets
at which a message of more than four bytes is read. -/
structure ZerosBehind (buf : Buffer) : Prop where
  zero : ∀ c ∈ buf.memory.drop buf.size, c = 0
  terminated : buf.size < buf.memory.length
  room : 4 < buf.size → 8 < buf.memory.length

/-- So is every message in a zeroed read buffer of more than eight bytes. -/
theorem zerosBehind_deliver {N : Nat} {m : Bytes} (hN : 8 < N) (h : m.length < N) :
    ZerosBehind (deliver (zeroed N) m) where
  zero := by
    intro c hc
    rw [deliver_memory h, deliver_size, List.drop_left, ← List.replicate_succ] at hc
    exact List.eq_of_mem_replicate hc
  terminated := by
    rw [deliver_memory h, deliver_size]
    simp
  room := by
    intro _
    simp only [deliver, zeroed, List.drop_replicate, List.length_append, List.length_replicate]
    omega

/-- `a` is what the message `m` has from offset `k` up to its first zero byte from
there or its end, and nothing when `m` is shorter. -/
structure PieceAt (m : Bytes) (k : Nat) (a : Bytes) : Prop where
  cut : k ≤ m.length → ∃ rest, m = m.take k ++ (a ++ rest) ∧ ∀ c ∈ rest.head?, c = 0
  zero_not_mem : 0 ∉ a
  beyond : m.length < k → a = []

/-- A C string read inside a message or behind it is a piece of the message. -/
theorem pieceAt_text (m : Bytes) (k : Nat) : PieceAt m k (text (m.drop k)) where
  cut := by
    intro _
    obtain ⟨rest, hrest, hend⟩ := CString.upTo_split 0 (m.drop k)
    refine ⟨rest, ?_, hend⟩
    rw [text, ← hrest]
    exact (List.take_append_drop k m).symm
  zero_not_mem := CString.not_mem_upTo 0 (m.drop k)
  beyond := by
    intro hshort
    rw [List.drop_eq_nil_of_le hshort.le]
    rfl

/-- The offset a message is read at. One of four bytes is a status, nothing is
behind it. -/
def offset (m : Bytes) : Nat :=
  if 4 < m.length then if okay <+: m ∨ fail <+: m then 8 else 4
  else if m.length = 4 then 4 else 0

theorem offset_mem (m : Bytes) : offset m ∈ [0, 4, 8] := by
  unfold offset
  split
  · split <;> simp
  · split <;> simp

/-- Together the two strings take over the text at the offset. -/
theorem reading_text (m : Bytes) :
    (reading m).result ++ (reading m).error = text (m.drop (offset m)) := by
  unfold reading offset
  split
  next hlong =>
    by_cases ho : okay <+: m
    · simp [ho]
    · by_cases hf : fail <+: m
      · simp [ho, hf]
      · simp [ho, hf]
  next hshort =>
    split
    next hfour =>
      rw [List.drop_eq_nil_of_le hfour.le]
      rfl
    next hfour => simp

/-- Only a failure has an error text. -/
theorem reading_error_of_not_fail {m : Bytes} (h : ¬ fail <+: m) : (reading m).error = [] := by
  unfold reading
  rw [if_neg h]
  split
  · split <;> rfl
  · split <;> rfl

/-- **What one call of `read_protocol_string` does.** For every message with zero
bytes behind it and every result and error so far: it returns -1 exactly for a
message of at least four bytes that begins with `FAIL`, it appends to at most one
of the two strings, to the error only when it returns -1 and to the result only
when it returns 0, and what it appends is the piece of the message at offset 0, 4
or 8. -/
theorem readProtocolString_frame (buf : Buffer) (hbehind : ZerosBehind buf)
    (result error : Bytes) :
    ∃ status r e,
      readProtocolString buf result error = .ok (status, result ++ r, error ++ e) ∧
      (status = -1 ↔ 4 ≤ buf.size ∧ fail <+: buf.payload) ∧
      (r = [] ∨ e = []) ∧ (e ≠ [] → status = -1) ∧ (r ≠ [] → status = 0) ∧
      ∃ k ∈ [0, 4, 8], PieceAt buf.payload k (r ++ e) := by
  have hsize := buf.payload_length
  have hread := readProtocolString_behind (hsize ▸ hbehind.terminated) (hsize ▸ hbehind.room)
    result error
  rw [← eq_deliver hbehind.zero] at hread
  have hstatus := reading_status buf.payload
  have hpiece := pieceAt_text buf.payload (offset buf.payload)
  rw [← reading_text] at hpiece
  refine ⟨_, _, _, hread, ?_, ?_, ?_, ?_, _, offset_mem _, hpiece⟩
  · rw [hstatus, ← hsize]
    split
    next hfail => simpa [hfail] using hfail.length_le
    next hfail => simp [hfail]
  · by_cases hfail : fail <+: buf.payload
    · exact .inl (reading_result_of_fail hfail)
    · exact .inr (reading_error_of_not_fail hfail)
  · intro herror
    by_contra hne
    apply herror
    apply reading_error_of_not_fail
    intro hfail
    exact hne (by rw [hstatus, if_pos hfail])
  · intro hresult
    rw [hstatus, if_neg]
    intro hfail
    exact hresult (reading_result_of_fail hfail)

theorem readProtocolString_frame_refused :
    ∃ status r e,
      readProtocolString (deliver (zeroed 16) (ascii "FAIL0006closed")) (ascii "serial ") [] =
        .ok (status, ascii "serial " ++ r, [] ++ e) ∧
      (status = -1 ↔ 4 ≤ (ascii "FAIL0006closed").length ∧ fail <+: ascii "FAIL0006closed") ∧
      (r = [] ∨ e = []) ∧ (e ≠ [] → status = -1) ∧ (r ≠ [] → status = 0) ∧
      ∃ k ∈ [0, 4, 8], PieceAt (ascii "FAIL0006closed") k (r ++ e) := by
  have hframe := readProtocolString_frame (deliver (zeroed 16) (ascii "FAIL0006closed"))
    (zerosBehind_deliver (by decide) (by decide)) (ascii "serial ") []
  rwa [deliver_size, deliver_payload] at hframe

end AdbClient.Guarantees.ProtocolString
