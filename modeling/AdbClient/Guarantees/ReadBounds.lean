import AdbClient.Abstract.Conversation

/-!
# Reads within the read buffer

The callbacks take text up to the first zero byte instead of asking for the size
of the message. They rely on the zero bytes behind it, and each of them clears the
message when it is done. A message that fills the read buffer has nothing behind
it: then every string a callback reads has to end inside the message, which text
from the server does not. These are the reads of a build with `NDEBUG`; without it the
log reads the message from its start as a string as well, in every callback but that
of `screencap`, which `CallbackFailures` adds.
-/
namespace AdbClient.Guarantees.ReadBounds
open Source Abstract Support Support.Stream

/-- No read leaves the read buffer. -/
def InBounds {α : Type} (x : Except Fault α) : Prop := x ≠ .error .outOfBounds

/-- Where the callback reads strings in a message that fills the buffer. -/
def stringOffsets : Call → Bytes → List Nat
  | .host _, m | .hostSerial _, m => [if okay <+: m ∨ fail <+: m then 8 else 4]
  | .device (.shell _ _), m => if okay <+: m then [] else [0]
  | .device (.listReverse _), m => [0, if okay <:+: text m then 8 else 4]
  | .device _, _ => []

section Faults
variable {α β : Type} {x : Except Fault α} {f : α → Except Fault β}

theorem inBounds_ok (a : α) : InBounds (.ok a : Except Fault α) := nofun

theorem inBounds_bind_iff (hf : ∀ a, InBounds (f a)) : InBounds (x >>= f) ↔ InBounds x := by
  cases x with
  | error fault => simp [InBounds, bind, Except.bind]
  | ok a => exact iff_of_true (hf a) (inBounds_ok a)

/-- A number is read from a string, not from the buffer. -/
theorem stoi16_inBounds (s : Bytes) : InBounds (stoi16 s) := by
  unfold stoi16 InBounds
  dsimp only
  split
  · nofun
  · split <;> nofun

end Faults

section Full
variable {N : Nat} {m : Bytes}

theorem deliver_full (h : m.length = N) : (deliver (zeroed N) m).memory = m := by
  simp [deliver, zeroed, h]

/-- A string has to end in the message. -/
theorem cStringAt_full (h : m.length = N) (k : Nat) :
    (deliver (zeroed N) m).cStringAt k =
      if 0 ∈ m.drop k then .ok (text (m.drop k)) else .error .outOfBounds := by
  rw [Buffer.cStringAt, deliver_full h, CString.scan_eq]
  split <;> rfl

theorem inBounds_cStringAt_iff (h : m.length = N) (k : Nat) :
    InBounds ((deliver (zeroed N) m).cStringAt k) ↔ 0 ∈ m.drop k := by
  rw [cStringAt_full h]
  split
  next hzero => exact iff_of_true (inBounds_ok _) hzero
  next hzero => exact iff_of_false (fun hin => hin rfl) hzero

/-- One string is read, behind the length field or where it would be. -/
theorem readProtocolString_full (hN : 8 < N) (h : m.length = N) (result error : Bytes) :
    InBounds (readProtocolString (deliver (zeroed N) m) result error) ↔
      0 ∈ m.drop (if okay <+: m ∨ fail <+: m then 8 else 4) := by
  have hokay : (deliver (zeroed N) m).strncmp okay 4 = .ok (decide (okay <+: m)) :=
    strncmp_of_length_le zero_not_mem_okay (by rw [okay_length]; omega)
  have hfail : (deliver (zeroed N) m).strncmp fail 4 = .ok (decide (fail <+: m)) :=
    strncmp_of_length_le zero_not_mem_fail (by rw [fail_length]; omega)
  have hlong : 4 < (deliver (zeroed N) m).size := by
    rw [deliver_size]
    omega
  unfold readProtocolString
  rw [if_pos hlong, hokay, hfail]
  by_cases ho : okay <+: m
  · rw [if_pos (.inl ho), ← inBounds_cStringAt_iff h]
    simp only [ho, decide_true, bind, Except.bind, if_true]
    exact inBounds_bind_iff fun _ => inBounds_ok _
  · by_cases hf : fail <+: m
    · rw [if_pos (.inr hf), ← inBounds_cStringAt_iff h]
      simp only [ho, hf, decide_true, decide_false, bind, Except.bind, if_true]
      exact inBounds_bind_iff fun _ => inBounds_ok _
    · rw [if_neg (not_or.mpr ⟨ho, hf⟩), ← inBounds_cStringAt_iff h]
      simp only [ho, hf, decide_false, bind, Except.bind]
      exact inBounds_bind_iff fun _ => inBounds_ok _

/-- The callbacks of the two host classes read through the parser only. -/
theorem hostCallback_iff {c : Call} (hc : c.OnHost) {buf : Buffer} {p : Prop}
    (hread : ∀ result error, InBounds (readProtocolString buf result error) ↔ p)
    (s : CallState) : InBounds (c.operation.onMessage s buf) ↔ p := by
  cases c with
  | device c => exact hc.elim
  | hostSerial c =>
    cases c <;> exact (inBounds_bind_iff fun _ => inBounds_ok _).trans (hread _ _)
  | host c =>
    cases c with
    | getVersion =>
      refine (inBounds_bind_iff ?_).trans (hread _ _)
      intro r
      obtain ⟨status, data, error⟩ := r
      dsimp only
      split
      · exact (inBounds_bind_iff fun _ => inBounds_ok _).mpr (stoi16_inBounds data)
      · exact inBounds_ok _
    | _ => exact (inBounds_bind_iff fun _ => inBounds_ok _).trans (hread _ _)

/-- A message longer than four bytes is no answer to the transport request. -/
theorem respondTransportCommand_full (hN : 8 < N) (h : m.length = N) (cmd : Bytes) :
    respondTransportCommand (deliver (zeroed N) m) cmd = .ok (0, []) := by
  have hfour : ¬ (deliver (zeroed N) m).size = 4 := by
    rw [deliver_size]
    omega
  rw [respondTransportCommand, if_neg hfour]
  rfl

theorem respondOnly_full (hN : 8 < N) (h : m.length = N) (cmd : Bytes) (s : CallState) :
    InBounds (LocalCommand.respondOnly cmd s (deliver (zeroed N) m)) := by
  refine (inBounds_bind_iff fun _ => inBounds_ok _).mpr ?_
  rw [respondTransportCommand_full hN h]
  exact inBounds_ok _

theorem shell_full (hN : 8 < N) (h : m.length = N) (serial command : Bytes) (s : CallState) :
    InBounds ((LocalCommand.shell serial command).onMessage s (deliver (zeroed N) m)) ↔
      ∀ k ∈ stringOffsets (.device (.shell serial command)) m, 0 ∈ m.drop k := by
  have hokay : (deliver (zeroed N) m).strncmp okay 4 = .ok (decide (okay <+: m)) :=
    strncmp_of_length_le zero_not_mem_okay (by rw [okay_length]; omega)
  simp only [LocalCommand.shell, LocalCommand.localOperation, stringOffsets,
    respondTransportCommand_full hN h, hokay, ok_bind]
  rw [if_pos (by decide : (0 : Int) ≠ -1)]
  by_cases ho : okay <+: m
  · rw [if_pos (decide_eq_true ho), if_pos ho]
    exact iff_of_true (inBounds_ok _) (by simp)
  · rw [if_neg (by simpa using ho), if_neg ho, List.forall_mem_singleton,
      ← inBounds_cStringAt_iff h]
    exact inBounds_bind_iff fun _ => inBounds_ok _

theorem listReverse_full (hN : 8 < N) (h : m.length = N) (serial : Bytes) (s : CallState) :
    InBounds ((LocalCommand.listReverse serial).onMessage s (deliver (zeroed N) m)) ↔
      ∀ k ∈ stringOffsets (.device (.listReverse serial)) m, 0 ∈ m.drop k := by
  simp only [LocalCommand.listReverse, LocalCommand.localOperation, stringOffsets,
    respondTransportCommand_full hN h, ok_bind, Buffer.strstr]
  rw [if_pos (by decide : (0 : Int) ≠ -1), List.forall_mem_cons, List.forall_mem_singleton,
    List.drop_zero]
  by_cases hzero : 0 ∈ m
  · rw [cStringAt_full h, List.drop_zero, if_pos hzero]
    by_cases ho : okay <:+: text m
    · simp only [ok_bind, pure, Except.pure, ho, decide_true, if_true, hzero, true_and]
      rw [← inBounds_cStringAt_iff h]
      exact inBounds_bind_iff fun _ => inBounds_ok _
    · simp only [ok_bind, pure, Except.pure, ho, decide_false, if_false, hzero, true_and]
      rw [← inBounds_cStringAt_iff h]
      exact inBounds_bind_iff fun _ => inBounds_ok _
  · rw [cStringAt_full h, List.drop_zero, if_neg hzero]
    exact iff_of_false (fun hin => hin rfl) (fun hboth => hzero hboth.1)

/-- The callbacks on a device, on a message that fills the buffer. -/
theorem deviceCallback_iff (hN : 8 < N) (h : m.length = N) (c : LocalCommand.Call)
    (s : CallState) :
    InBounds (c.operation.onMessage s (deliver (zeroed N) m)) ↔
      ∀ k ∈ stringOffsets (.device c) m, 0 ∈ m.drop k := by
  cases c with
  | shell serial command => exact shell_full hN h serial command s
  | listReverse serial => exact listReverse_full hN h serial s
  | screencap serial =>
    have hfour : ¬ (deliver (zeroed N) m).size = 4 := by
      rw [deliver_size]
      omega
    refine iff_of_true ?_ (by simp [stringOffsets])
    simp only [LocalCommand.Call.operation, LocalCommand.screencap, LocalCommand.localOperation,
      if_neg hfour]
    exact inBounds_ok _
  | _ => exact iff_of_true (respondOnly_full hN h _ s) (by simp [stringOffsets])

end Full

section Short
variable {N : Nat} {m : Bytes}

theorem next_inBounds (c : Call) (s : CallState) (m : Bytes) :
    InBounds ((meaning c).next s m) := by
  cases c with
  | device c => exact inBounds_ok _
  | hostSerial c => exact inBounds_ok _
  | host c =>
    cases c with
    | getVersion =>
      simp only [meaning, hostNext]
      split
      · exact (inBounds_bind_iff fun _ => inBounds_ok _).mpr (stoi16_inBounds _)
      · exact inBounds_ok _
    | _ => exact inBounds_ok _

/-- With a zero byte behind the message no read goes past it. -/
theorem onMessage_short (hN : 8 < N) (h : m.length < N) (c : Call) (s : CallState) :
    InBounds (c.operation.onMessage s (deliver (zeroed N) m)) := by
  have hnext := next_inBounds c s m
  rw [onMessage_deliver hN h]
  cases hm : (meaning c).next s m with
  | error fault =>
    rw [hm] at hnext
    intro hfault
    cases hfault
    exact hnext rfl
  | ok t => exact inBounds_ok _

end Short

/-- **When every read ends in the buffer.** For every operation in every state, every
read buffer of more than eight bytes and every message in it: no read of the
message callback leaves the buffer if and only if the message does not fill it,
or has a zero byte behind every offset the callback reads a string from. -/
theorem onMessage_inBounds_iff {N : Nat} (hN : 8 < N) (c : Call) (s : CallState) (m : Bytes)
    (h : m.length ≤ N) :
    InBounds (c.operation.onMessage s (deliver (zeroed N) m)) ↔
      m.length < N ∨ ∀ k ∈ stringOffsets c m, 0 ∈ m.drop k := by
  rcases Nat.lt_or_eq_of_le h with hshort | hfull
  · exact iff_of_true (onMessage_short hN hshort c s) (.inl hshort)
  · have hcallback : InBounds (c.operation.onMessage s (deliver (zeroed N) m)) ↔
        ∀ k ∈ stringOffsets c m, 0 ∈ m.drop k := by
      cases c with
      | device c => exact deviceCallback_iff hN hfull c s
      | hostSerial c =>
        have hc : (Call.hostSerial c).OnHost := trivial
        rw [stringOffsets, List.forall_mem_singleton]
        exact hostCallback_iff hc (readProtocolString_full hN hfull) s
      | host c =>
        have hc : (Call.host c).OnHost := trivial
        rw [stringOffsets, List.forall_mem_singleton]
        exact hostCallback_iff hc (readProtocolString_full hN hfull) s
    rw [hcallback, hfull]
    simp

/-- The image data of a screen capture may fill the buffer. -/
theorem onMessage_inBounds_screencap :
    InBounds ((Call.device (.screencap (ascii "d17cdac6"))).operation.onMessage .fresh
      (deliver (zeroed 9) (List.replicate 9 137))) :=
  (onMessage_inBounds_iff (by decide) (.device (.screencap (ascii "d17cdac6"))) .fresh
    (List.replicate 9 137) (by decide)).mpr (by decide)

/-- Text that fills the buffer is read past its end. -/
theorem onMessage_inBounds_fails :
    (ascii "bin\ndata\n").length = 9 ∧
      ¬ InBounds ((Call.device (.shell (ascii "d17cdac6") (ascii "ls"))).operation.onMessage .fresh
        (deliver (zeroed 9) (ascii "bin\ndata\n"))) := by
  refine ⟨by decide, ?_⟩
  intro hin
  have hzero := (shell_full (by decide) (by decide) (ascii "d17cdac6") (ascii "ls") .fresh).mp hin
  exact absurd hzero (by decide)

end AdbClient.Guarantees.ReadBounds
