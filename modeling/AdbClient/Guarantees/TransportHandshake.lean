import AdbClient.Abstract.Conversation
import AdbClient.Guarantees.RequestFraming

/-!
# The transport handshake of the device operations

`respond_transport_command` keeps no state: every message that is exactly the
four bytes `OKAY` makes it write the service request, the server's answer to the
transport request as well as the service's own. The screencap callback has its
own copy of the handshake and writes on the same messages.
-/
namespace AdbClient.Guarantees.TransportHandshake
open Source Abstract RequestFraming

theorem command_eq (c : LocalCommand.Call) :
    c.operation.command = LocalCommand.transportRequest c.serial := by
  cases c <;> rfl

/-- The two requests start with different letters, neither a hexadecimal digit. -/
theorem cmd_head (c : LocalCommand.Call) :
    ∃ b rest, c.operation.cmd = b :: rest ∧ hexDigit b = none ∧ b ≠ 104 := by
  cases c with
  | reverse serial localSpec remote norebind =>
    cases norebind <;> exact ⟨114, _, rfl, by decide, by decide⟩
  | shell | sync | screencap => exact ⟨115, _, rfl, by decide, by decide⟩
  | tcpip => exact ⟨116, _, rfl, by decide, by decide⟩
  | usb => exact ⟨117, _, rfl, by decide, by decide⟩
  | root | listReverse | killReverse | killReverseAll =>
    exact ⟨114, _, rfl, by decide, by decide⟩

theorem transport_head (serial : Bytes) :
    ∃ rest, LocalCommand.transportRequest serial = 104 :: rest := ⟨_, rfl⟩

/-- No service request has the frame of a transport request. -/
theorem frame_transport_ne (c : LocalCommand.Call) :
    frame (LocalCommand.transportRequest c.serial) ≠ frame c.operation.cmd := by
  intro h
  obtain ⟨b, rest, hcmd, hb, hne⟩ := cmd_head c
  obtain ⟨rest', htransport⟩ := transport_head c.serial
  have heq := frame_injective htransport (by decide) hcmd hb h
  rw [htransport, hcmd] at heq
  exact hne (List.cons.inj heq).1.symm

theorem flatMap_transportReply (cmd : Bytes) (msgs : List Bytes) :
    msgs.flatMap (transportReply cmd) = List.replicate (msgs.count okay) (frame cmd) := by
  induction msgs with
  | nil => rfl
  | cons m msgs ih =>
    rw [List.flatMap_cons, ih, transportReply]
    by_cases h : m = okay
    · simp [h, List.replicate_succ]
    · simp [h]

theorem device_written (c : LocalCommand.Call) (N : Nat) (msgs : List Bytes) (s : CallState) :
    (finishedSession (.device c) N msgs s).written =
      frame (LocalCommand.transportRequest c.serial) ::
        List.replicate (msgs.count okay) (frame c.operation.cmd) := by
  rw [finishedSession_written, ← flatMap_transportReply, ← command_eq]
  rfl

/-- The frames of the transport request and of the service requests, as many as
there are messages that are exactly `OKAY`. -/
def requests (c : LocalCommand.Call) (msgs : List Bytes) : List Bytes :=
  LocalCommand.transportRequest c.serial :: List.replicate (msgs.count okay) c.operation.cmd

theorem device_wire (c : LocalCommand.Call) (N : Nat) (msgs : List Bytes) (s : CallState) :
    (finishedSession (.device c) N msgs s).wire = (requests c msgs).flatMap frame := by
  rw [Session.wire, device_written, requests, List.flatMap_cons, List.flatten_cons,
    List.flatMap_replicate]

/-- What a device operation sends on a connection: the transport request when the
connection opens, the service request while each message that is exactly `OKAY`
is handled, nothing else. With lengths of at most 65535 the server reads the
stream back as these requests. -/
theorem session_writes {N : Nat} (hN : 8 < N) (c : LocalCommand.Call) (s : CallState)
    (msgs : List Bytes) (h : Fit N msgs) :
    ∃ x, c.operation.call N s msgs = .ok x ∧
      x.log =
        (.connected, [frame (LocalCommand.transportRequest c.serial)]) ::
          (msgs.map fun m =>
            (.message m, if m = okay then [frame c.operation.cmd] else [])) ++
          [(.closed, [])] ∧
      x.wire =
        frame (LocalCommand.transportRequest c.serial) ++
          (List.replicate (msgs.count okay) (frame c.operation.cmd)).flatten ∧
      ((LocalCommand.transportRequest c.serial).length ≤ 65535 →
        c.operation.cmd.length ≤ 65535 →
        serverDecode x.wire =
          some (LocalCommand.transportRequest c.serial ::
            List.replicate (msgs.count okay) c.operation.cmd)) := by
  refine ⟨_, device_call hN c msgs h s, ?_, ?_, ?_⟩
  · simp only [finishedSession, exchange, Call.operation, command_eq]
    rfl
  · rw [device_wire, requests, List.flatMap_cons, List.flatMap_replicate]
  · intro htransport hcmd
    rw [device_wire]
    apply serverDecode_frames
    intro r hr
    rw [requests, List.mem_cons, List.mem_replicate] at hr
    rcases hr with rfl | ⟨_, rfl⟩
    · exact htransport
    · exact hcmd

theorem session_writes_shell :
    ∃ x, (LocalCommand.Call.shell (ascii "d17cdac6") (ascii "ls")).operation.call 64
        CallState.fresh [okay, okay, ascii "bin\n"] = .ok x ∧
      serverDecode x.wire = some [ascii "host:transport:d17cdac6", ascii "shell:ls",
        ascii "shell:ls"] := by
  obtain ⟨x, hx, _, _, hdecode⟩ :=
    session_writes (by decide) (.shell (ascii "d17cdac6") (ascii "ls")) CallState.fresh
      [okay, okay, ascii "bin\n"] (N := 64) (by decide)
  exact ⟨x, hx, hdecode (by decide) (by decide)⟩

/-- The service request is written once when the server acknowledged and not at
all when it did not. -/
def RequestedOnce (c : LocalCommand.Call) (msgs : List Bytes) (x : Session) : Prop :=
  (okay <+: msgs.flatten → x.written.count (frame c.operation.cmd) = 1) ∧
    (¬ okay <+: msgs.flatten → frame c.operation.cmd ∉ x.written)

/-- Of the messages received exactly one is `OKAY` when the bytes received begin
with it, and none otherwise. -/
def OneAcknowledgement (msgs : List Bytes) : Prop :=
  (okay <+: msgs.flatten → msgs.count okay = 1) ∧ (¬ okay <+: msgs.flatten → okay ∉ msgs)

theorem count_requests (c : LocalCommand.Call) (N : Nat) (msgs : List Bytes) (s : CallState) :
    (finishedSession (.device c) N msgs s).written.count (frame c.operation.cmd) =
      msgs.count okay := by
  rw [device_written, List.count_cons_of_ne (frame_transport_ne c), List.count_replicate_self]

/-- The service request is sent once, as it should be, exactly when one message
alone is `OKAY`. The service's own acknowledgement as a message of its own makes
it two. -/
theorem requestedOnce_iff {N : Nat} (hN : 8 < N) (c : LocalCommand.Call) (s : CallState)
    (msgs : List Bytes) (h : Fit N msgs) :
    (∃ x, c.operation.call N s msgs = .ok x ∧ RequestedOnce c msgs x) ↔
      OneAcknowledgement msgs := by
  have hcount := count_requests c N msgs (msgs.foldl (deviceNext c) (entered (.device c) s))
  have hmem : frame c.operation.cmd ∈ (finishedSession (.device c) N msgs
      (msgs.foldl (deviceNext c) (entered (.device c) s))).written ↔ okay ∈ msgs := by
    rw [← List.count_pos_iff, hcount, List.count_pos_iff]
  rw [device_call hN c msgs h s]
  simp only [Except.ok.injEq, exists_eq_left', RequestedOnce, OneAcknowledgement, hcount, hmem]

theorem requestedOnce_shell :
    ∃ x, (LocalCommand.Call.shell (ascii "d17cdac6") (ascii "ls")).operation.call 64
        CallState.fresh [okay, okay ++ ascii "bin\n"] = .ok x ∧
      RequestedOnce (.shell (ascii "d17cdac6") (ascii "ls")) [okay, okay ++ ascii "bin\n"] x :=
  (requestedOnce_iff (by decide) _ _ _ (by decide)).mpr
    ⟨fun _ => by decide, fun h => absurd (by decide) h⟩

/-- A shell whose service acknowledges in a message of its own gets the request a
second time, now as its input. -/
theorem requestedOnce_fails :
    ¬ ∃ x, (LocalCommand.Call.shell (ascii "d17cdac6") (ascii "ls")).operation.call 64
        CallState.fresh [okay, okay, ascii "bin\n"] = .ok x ∧
      RequestedOnce (.shell (ascii "d17cdac6") (ascii "ls")) [okay, okay, ascii "bin\n"] x := by
  intro hkept
  obtain ⟨x, hx, hsent, _⟩ := hkept
  rw [device_call (by decide) _ _ (by decide)] at hx
  cases hx
  rw [count_requests] at hsent
  exact absurd (hsent (by decide)) (by decide)

end AdbClient.Guarantees.TransportHandshake
