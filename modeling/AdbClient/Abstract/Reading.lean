import AdbClient.Source.AdbProtocol

/-!
# What one message says

The two parsers as functions of the bytes of the message alone. The theorems at
the end connect them to the source: on a zeroed read buffer with room behind the
message, each parser returns exactly this and never reads out of bounds.
-/
namespace AdbClient.Abstract
open Source Support

/-- The status a message leaves and the texts it appends to the caller's result
and to the error message. -/
structure Reading where
  status : Int
  result : Bytes
  error : Bytes
  deriving DecidableEq, Repr

/-- The size of the message selects the branch, then its first four bytes. -/
def reading (m : Bytes) : Reading :=
  if 4 < m.length then
    if okay <+: m then ⟨0, text (m.drop 8), []⟩
    else if fail <+: m then ⟨-1, [], text (m.drop 8)⟩
    else ⟨0, text (m.drop 4), []⟩
  else if m.length = 4 then ⟨if m = fail then -1 else 0, [], []⟩
  else ⟨0, text m, []⟩

/-- The status `respond_transport_command` returns. -/
def transportStatus (m : Bytes) : Int := if m = fail then -1 else 0

/-- What it writes. -/
def transportReply (cmd m : Bytes) : List Bytes := if m = okay then [frame cmd] else []

theorem zero_not_mem_okay : (0 : Byte) ∉ okay := by decide
theorem zero_not_mem_fail : (0 : Byte) ∉ fail := by decide

@[simp] theorem okay_length : okay.length = 4 := by decide
@[simp] theorem fail_length : fail.length = 4 := by decide

theorem okay_ne_fail : okay ≠ fail := by decide

/-- On a message of four bytes the prefix test is equality. -/
theorem prefix_iff_eq {lit m : Bytes} (hlit : lit.length = 4) (hm : m.length = 4) :
    lit <+: m ↔ m = lit := by
  constructor
  · intro h
    exact (h.eq_of_length (hlit.trans hm.symm)).symm
  · rintro rfl
    exact List.prefix_rfl

theorem not_okay_prefix_of_fail {m : Bytes} (h : fail <+: m) : ¬ okay <+: m := by
  intro h'
  exact okay_ne_fail ((List.prefix_of_prefix_length_le h' h (by simp)).eq_of_length (by simp))

theorem transportStatus_ne_iff (m : Bytes) : transportStatus m ≠ -1 ↔ m ≠ fail := by
  unfold transportStatus
  split <;> simp_all

section Deliver
variable {N : Nat} {m : Bytes}

theorem strncmp_okay (h : m.length < N) :
    (deliver (zeroed N) m).strncmp okay 4 = .ok (decide (okay <+: m)) :=
  strncmp_deliver h zero_not_mem_okay

theorem strncmp_fail (h : m.length < N) :
    (deliver (zeroed N) m).strncmp fail 4 = .ok (decide (fail <+: m)) :=
  strncmp_deliver h zero_not_mem_fail

/-- The parser of replies on a message with zero bytes behind it. Only a message of
more than four bytes is read at an offset that may lie behind its end. -/
theorem readProtocolString_behind (h : m.length < N) (hroom : 4 < m.length → 8 < N)
    (result error : Bytes) :
    readProtocolString (deliver (zeroed N) m) result error =
      .ok ((reading m).status, result ++ (reading m).result, error ++ (reading m).error) := by
  simp only [readProtocolString, deliver_size, strncmp_okay h, strncmp_fail h, reading, bind,
    Except.bind, pure, Except.pure, Nat.reduceAdd]
  by_cases hlong : 4 < m.length
  · have h4 := cStringAt_deliver (k := 4) h (hlong.trans h)
    have h8 := cStringAt_deliver (k := 8) h (hroom hlong)
    by_cases ho : okay <+: m
    · simp [hlong, ho, h8]
    · by_cases hf : fail <+: m
      · simp [hlong, ho, hf, h8]
      · simp [hlong, ho, hf, h4]
  · by_cases hfour : m.length = 4
    · simp only [prefix_iff_eq okay_length hfour, prefix_iff_eq fail_length hfour]
      by_cases ho : m = okay
      · simp [ho, okay_ne_fail]
      · by_cases hf : m = fail
        · simp [hf, Ne.symm okay_ne_fail]
        · simp [hfour, ho, hf]
    · have h0 := cStringAt_deliver (k := 0) h (Nat.zero_lt_of_lt h)
      simp [hlong, hfour, h0]

/-- A read buffer of more than eight bytes has room for every message. -/
theorem readProtocolString_deliver (hN : 8 < N) (h : m.length < N) (result error : Bytes) :
    readProtocolString (deliver (zeroed N) m) result error =
      .ok ((reading m).status, result ++ (reading m).result, error ++ (reading m).error) :=
  readProtocolString_behind h (fun _ => hN) result error

/-- The parser of transport replies on a message with zero bytes behind it. -/
theorem respondTransportCommand_deliver (h : m.length < N) (cmd : Bytes) :
    respondTransportCommand (deliver (zeroed N) m) cmd =
      .ok (transportStatus m, transportReply cmd m) := by
  simp only [respondTransportCommand, deliver_size, strncmp_okay h, strncmp_fail h,
    transportStatus, transportReply, bind, Except.bind, pure, Except.pure]
  by_cases hfour : m.length = 4
  · simp only [prefix_iff_eq okay_length hfour, prefix_iff_eq fail_length hfour]
    by_cases ho : m = okay
    · simp [ho, okay_ne_fail]
    · by_cases hf : m = fail
      · simp [hf, Ne.symm okay_ne_fail]
      · simp [hfour, ho, hf]
  · have ho : m ≠ okay := by
      rintro rfl
      exact hfour okay_length
    have hf : m ≠ fail := by
      rintro rfl
      exact hfour fail_length
    simp [hfour, ho, hf]

end Deliver

section Cleared
variable {n : Nat} {m : Bytes}

/-- In a cleared buffer of any size, a string that ends is the text of the message
at its offset. -/
theorem cStringAt_eq_ok {k : Nat} {w : Bytes}
    (h : (deliver (zeroed n) m).cStringAt k = .ok w) : w = text (m.drop k) := by
  have hmemory : (deliver (zeroed n) m).memory.drop k =
      m.drop k ++ List.replicate (n - m.length - (k - m.length)) 0 := by
    rw [deliver, List.drop_append, zeroed, List.drop_replicate, List.drop_replicate]
  rw [Buffer.cStringAt, hmemory, CString.scan_eq] at h
  split at h
  next =>
    cases h
    rw [CString.upTo_append]
    split
    next => rfl
    next hzero =>
      have hnone : ∀ j, CString.upTo 0 (List.replicate j (0 : Byte)) = [] := by
        intro j
        cases j <;> simp [CString.upTo, List.replicate_succ]
      rw [hnone, List.append_nil, text_eq_self hzero]
  next => cases h

/-- A message of four bytes or more decides its comparison alone. -/
theorem strncmp_of_length_le {memory literal : Bytes} (hzero : 0 ∉ literal)
    (hlength : literal.length ≤ m.length) :
    (deliver memory m).strncmp literal literal.length = .ok (decide (literal <+: m)) := by
  have hlong : literal.length ≤ (deliver memory m).memory.length :=
    hlength.trans (by simp [deliver])
  have hprefix : literal <+: (deliver memory m).memory ↔ literal <+: m := by
    constructor
    · intro h
      exact List.prefix_of_prefix_length_le h (List.prefix_append _ _) hlength
    · intro h
      exact h.trans (List.prefix_append _ _)
  rw [Buffer.strncmp, CString.equalUpTo_of_length_le hzero hlong, decide_eq_decide.mpr hprefix]
  rfl

/-- The parser, too, whenever it comes back. -/
theorem readProtocolString_eq_ok {result error : Bytes} {r : Int × Bytes × Bytes}
    (h : readProtocolString (deliver (zeroed n) m) result error = .ok r) :
    r = ((reading m).status, result ++ (reading m).result, error ++ (reading m).error) := by
  have hread : ∀ {k : Nat} {f : Bytes → Int × Bytes × Bytes},
      ((deliver (zeroed n) m).cStringAt k >>= fun w => pure (f w)) = .ok r →
        r = f (text (m.drop k)) := by
    intro k f hbind
    cases hw : (deliver (zeroed n) m).cStringAt k with
    | error fault =>
      rw [hw] at hbind
      cases hbind
    | ok w =>
      rw [hw] at hbind
      cases hbind
      rw [cStringAt_eq_ok hw]
  have hokay (hfour : 4 ≤ m.length) :
      (deliver (zeroed n) m).strncmp okay 4 = .ok (decide (okay <+: m)) :=
    strncmp_of_length_le zero_not_mem_okay hfour
  have hfail (hfour : 4 ≤ m.length) :
      (deliver (zeroed n) m).strncmp fail 4 = .ok (decide (fail <+: m)) :=
    strncmp_of_length_le zero_not_mem_fail hfour
  unfold readProtocolString at h
  rw [deliver_size] at h
  unfold reading
  by_cases hlong : 4 < m.length
  · rw [if_pos hlong, hokay hlong.le, hfail hlong.le] at h
    by_cases ho : okay <+: m
    · simp only [ho, decide_true, bind, Except.bind, if_true] at h
      simpa [hlong, ho] using hread h
    · by_cases hf : fail <+: m
      · simp only [ho, hf, decide_true, decide_false, bind, Except.bind, if_true] at h
        simpa [hlong, ho, hf] using hread h
      · simp only [ho, hf, decide_false, bind, Except.bind] at h
        simpa [hlong, ho, hf] using hread h
  · by_cases hfour : m.length = 4
    · rw [if_neg hlong, if_pos hfour, hokay hfour.ge, hfail hfour.ge] at h
      simp only [prefix_iff_eq okay_length hfour, prefix_iff_eq fail_length hfour, bind,
        Except.bind] at h
      by_cases ho : m = okay
      · simp [ho, pure, Except.pure] at h
        simp [← h, ho, okay_ne_fail]
      · by_cases hf : m = fail
        · simp [hf, Ne.symm okay_ne_fail, pure, Except.pure] at h
          simp [← h, hf]
        · simp [ho, hf, pure, Except.pure] at h
          simp [← h, hfour, hf]
    · rw [if_neg hlong, if_neg hfour] at h
      simpa [hlong, hfour] using hread h

end Cleared
end AdbClient.Abstract
