import AdbClient.Guarantees.Interleaving
import AdbClient.Guarantees.TransportHandshake

/-!
# What each connection carries, whatever the interleaving

Two threads set `m_command`, swap callbacks and write, and still each connection
carries the requests of one call and nothing of another: its own command, and for
a device operation one service request for each acknowledgement received. A
connection that is refused carries nothing. How much of it the server can read
back depends on the lengths alone.
-/
namespace AdbClient.Guarantees.ConnectionWire
open Source Abstract Support.Framing Support.Transition Interleaving RequestFraming
  TransportHandshake

/-- The service requests a call makes of the messages it receives. -/
def services : Call → List Bytes → List Bytes
  | .device c, msgs => List.replicate (msgs.count okay) c.operation.cmd
  | .host _, _ | .hostSerial _, _ => []

/-- The requests of a call by how its connection came out. -/
def requested (c : Call) : Attempt → List Bytes
  | .refused => []
  | .served msgs => c.operation.command :: services c msgs

/-- The messages a session has handled. -/
def received (x : Session) : List Bytes :=
  x.log.filterMap fun entry =>
    match entry.1 with
    | .message m => some m
    | .connected | .closed => none

def messages : Attempt → List Bytes
  | .refused => []
  | .served msgs => msgs

/-- A session is on the wire what its attempt says. -/
structure Carries (c : Call) (a : Attempt) (x : Session) : Prop where
  received : received x = messages a
  written : x.written = (requested c a).map frame

section OneCall
variable {N : Nat} {c : Call} {msgs : List Bytes} {s : CallState} {x : Session}

theorem flatMap_sends (c : Call) (msgs : List Bytes) :
    msgs.flatMap (meaning c).sends = (services c msgs).map frame := by
  cases c with
  | device c => rw [services, List.map_replicate, ← flatMap_transportReply]; rfl
  | host c => simp [meaning, services]
  | hostSerial c => simp [meaning, services]

theorem received_finishedSession (c : Call) (N : Nat) (msgs : List Bytes) (s : CallState) :
    received (finishedSession c N msgs s) = msgs := by
  simp [received, finishedSession, exchange, List.filterMap_map]

theorem carries_attempt (hN : 8 < N) {a : Attempt} (hfit : a.Fits N)
    (h : attempt c.operation N s a = .ok x) : Carries c a x := by
  cases a with
  | refused =>
    have hx : c.operation.step (c.operation.start N s) .closed = .ok x := h
    simp only [Operation.step, c.operation_onConnection, connectionCallback, Operation.start,
      Except.ok.injEq] at hx
    subst hx
    exact ⟨rfl, rfl⟩
  | served msgs =>
    obtain ⟨t, -, rfl⟩ := (call_ok_iff hN c msgs hfit s x).mp h
    refine ⟨received_finishedSession c N msgs t, ?_⟩
    rw [finishedSession_written, flatMap_sends]
    rfl

/-- The server reads a connection back exactly when no request is too long. -/
theorem serverDecode_carries {a : Attempt} (h : Carries c a x) :
    serverDecode x.wire = some (requested c a) ↔ ∀ r ∈ requested c a, r.length ≤ 65535 := by
  have hdecode := requestHeader.decodeAll_frames_iff (requested c a)
  rw [requestHeader_frame, requestHeader_bound, List.flatMap_def] at hdecode
  rw [Session.wire, h.written, serverDecode, hdecode]
  exact forall_congr' fun r => imp_congr_right fun _ => Nat.lt_succ_iff

end OneCall

/-- Every call of a sequential run had a connection of its own. -/
theorem attempt_of_mem {N : Nat} {o o' : Members} {calls : List Completed}
    (hrun : Run (sequential N) (fun _ _ => True) o calls o') {i : Completed} (hi : i ∈ calls) :
    ∃ found a, Attempt.Fits N a ∧
      attempt i.call.call.operation N (i.entry found) a = .ok i.session := by
  induction hrun with
  | nil o => cases hi
  | @cons o o' j calls henabled _ _ ih =>
    rcases List.mem_cons.mp hi with rfl | hi
    · exact ⟨o, henabled⟩
    · exact ih hi

/-- **Every connection carries one call.** For every interleaving of the two threads
with one connection for each call, and every call that returns: the frames on its
connection are its own command and a service request for each message that is
exactly `OKAY`, or nothing when the connection was refused, and the server decodes
the bytes as these requests if and only if none is longer than 65535 bytes. The
attempt that says so is the one the call's own code makes of the connection. -/
theorem connection_wire {N : Nat} (hN : 8 < N) {x y : Execution} {o : Members}
    (hfresh : x.Fresh N o) {moves : List Move}
    (hrun : Run Execution.system (OneConnection N) x moves y) {i : Completed}
    (hi : i ∈ trace Execution.system returns x moves) :
    ∃ (found : Members) (a : Attempt), a.Fits N ∧
      attempt i.call.call.operation N (i.entry found) a = .ok i.session ∧
      received i.session = messages a ∧
      i.session.written = (requested i.call.call a).map frame ∧
      (serverDecode i.session.wire = some (requested i.call.call a) ↔
        ∀ r ∈ requested i.call.call a, r.length ≤ 65535) := by
  obtain ⟨o', hsequential, -⟩ := represents_run hN hfresh hrun
  obtain ⟨found, a, hfit, hattempt⟩ := attempt_of_mem hsequential hi
  have hcarries := carries_attempt hN hfit hattempt
  exact ⟨found, a, hfit, hattempt, hcarries.received, hcarries.written,
    serverDecode_carries hcarries⟩

/-- A shell that is acknowledged, and what its command returns. -/
def shellTurn : List Move :=
  ⟨.setCommand ⟨.device (.shell (ascii "d17cdac6") (ascii "ls")), trivial⟩, [], 0⟩ ::
    [.clearFinished, .startConnect true, .connect, .start, .message okay,
      .message (ascii "OKAYbin"), .runQueued true, .test, .close, .closeCallback, .notifyAll,
      .test, .leave].map (⟨·, [], 0⟩)

/-- Its one call, and all it put on its connection. -/
theorem connection_wire_shell :
    ∃ y i, Run Execution.system (OneConnection 16) (Execution.fresh 16) shellTurn y ∧
      trace Execution.system returns (Execution.fresh 16) shellTurn = [i] ∧
      received i.session = [okay, ascii "OKAYbin"] ∧
      i.session.written =
        [frame (ascii "host:transport:d17cdac6"), frame (ascii "shell:ls")] ∧
      serverDecode i.session.wire = some [ascii "host:transport:d17cdac6", ascii "shell:ls"] := by
  have hrun : Run Execution.system (OneConnection 16) (Execution.fresh 16) shellTurn _ :=
    .of_check rfl
  have htrace : trace Execution.system returns (Execution.fresh 16) shellTurn = [_] := rfl
  refine ⟨_, _, hrun, htrace, ?_⟩
  obtain ⟨found, a, -, -, hreceived, hwritten, hdecode⟩ :=
    connection_wire (by decide) (Execution.fresh_fresh 16) hrun (htrace ▸ List.mem_singleton_self _)
  have hmessages : messages a = [okay, ascii "OKAYbin"] := hreceived.symm
  cases a with
  | refused => cases hmessages
  | served msgs =>
    obtain rfl : msgs = [okay, ascii "OKAYbin"] := hmessages
    exact ⟨hreceived, hwritten, hdecode.mpr (by decide)⟩

end AdbClient.Guarantees.ConnectionWire
