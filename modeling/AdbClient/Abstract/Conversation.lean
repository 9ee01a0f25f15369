import AdbClient.Abstract.Meaning
import AdbClient.Support.Stream

/-!
# A whole connection

The source's run of a connection, on a read buffer that every callback has to
clear, is the fold of the abstract callback over the messages: `call_eq`. What
the messages were before a given one matters only through the call's state.
-/
namespace AdbClient.Abstract
open Source

/-- Every message is shorter than the read buffer. -/
def Fit (N : Nat) (msgs : List Bytes) : Prop := ∀ m ∈ msgs, m.length < N

instance (N : Nat) (msgs : List Bytes) : Decidable (Fit N msgs) :=
  inferInstanceAs (Decidable (∀ m ∈ msgs, m.length < N))

/-- The non-empty messages a byte stream arrives in. -/
structure Cut (stream : Bytes) (msgs : List Bytes) : Prop where
  joined : msgs.flatten = stream
  nonempty : ∀ m ∈ msgs, m ≠ []

/-- What is logged for the messages of a call. -/
def exchange (c : Call) (msgs : List Bytes) : List (Event × List Bytes) :=
  msgs.map fun m => (.message m, (meaning c).sends m)

/-- The session a call leaves that ends in state `s`. -/
def finishedSession (c : Call) (N : Nat) (msgs : List Bytes) (s : CallState) : Session where
  state := s
  memory := zeroed N
  finished := true
  log := (.connected, [frame c.operation.command]) :: exchange c msgs ++ [(.closed, [])]

/-- The state the callbacks start from. -/
def entered (c : Call) (s : CallState) : CallState := { s with status := c.operation.status }

theorem step_message {N : Nat} {m : Bytes} (hN : 8 < N) (h : m.length < N) (c : Call)
    (x : Session) (hx : x.memory = zeroed N) :
    c.operation.step x (.message m) =
      ((meaning c).next x.state m).map fun s' =>
        { state := s', memory := zeroed N, finished := x.finished || wakes c,
          log := x.log ++ [(.message m, (meaning c).sends m)] } := by
  simp only [Operation.step, hx, onMessage_deliver hN h c x.state, bind, Except.bind, pure,
    Except.pure]
  cases (meaning c).next x.state m <;> rfl

/-- The invariant that carries the induction is the zeroed read buffer. -/
theorem receive_eq {N : Nat} (hN : 8 < N) (c : Call) (msgs : List Bytes) (h : Fit N msgs)
    (x : Session) (hx : x.memory = zeroed N) :
    c.operation.receive x msgs =
      (msgs.foldlM (meaning c).next x.state).map fun s' =>
        { state := s', memory := zeroed N
          finished := x.finished || (wakes c && !msgs.isEmpty)
          log := x.log ++ exchange c msgs } := by
  induction msgs generalizing x with
  | nil =>
    cases x
    subst hx
    simp [Operation.receive, exchange, Except.map, pure, Except.pure]
  | cons m msgs ih =>
    have hstep := step_message hN (h m (by simp)) c x hx
    simp only [Operation.receive, List.map_cons, List.foldlM_cons, bind, Except.bind, hstep] at ih ⊢
    cases hnext : (meaning c).next x.state m with
    | error fault => rfl
    | ok s' =>
      simp only [Except.map]
      rw [ih (fun m' hm' => h m' (by simp [hm'])) _ rfl]
      simp only [exchange, List.map_cons, List.append_assoc, List.singleton_append,
        List.isEmpty_cons, Bool.not_false, Bool.and_true, Bool.or_assoc]
      cases msgs.foldlM (meaning c).next s' with
      | error fault => rfl
      | ok t => cases wakes c <;> simp [Except.map]

/-- The session once the connection callback has sent the operation's request. -/
def openedSession (c : Call) (N : Nat) (s : CallState) : Session where
  state := entered c s
  memory := zeroed N
  finished := false
  log := [(.connected, [frame c.operation.command])]

theorem step_connected (c : Call) (N : Nat) (s : CallState) :
    c.operation.step (c.operation.start N s) .connected = .ok (openedSession c N s) := by
  simp [Operation.step, c.operation_onConnection, connectionCallback, Operation.start,
    openedSession, entered]

/-- So is the run of a connection that is still open. -/
theorem underway_eq {N : Nat} (hN : 8 < N) (c : Call) (msgs : List Bytes) (h : Fit N msgs)
    (s : CallState) :
    c.operation.underway N s msgs =
      (msgs.foldlM (meaning c).next (entered c s)).map fun s' =>
        { state := s', memory := zeroed N, finished := wakes c && !msgs.isEmpty
          log := (.connected, [frame c.operation.command]) :: exchange c msgs } := by
  simp only [Operation.underway, bind, Except.bind, step_connected,
    receive_eq hN c msgs h (openedSession c N s) rfl]
  rfl

/-- The state of a connection that is still open is what the messages leave. -/
theorem underway_ok_iff {N : Nat} (hN : 8 < N) (c : Call) (msgs : List Bytes) (h : Fit N msgs)
    (s t : CallState) :
    (∃ x, c.operation.underway N s msgs = .ok x ∧ x.state = t) ↔
      msgs.foldlM (meaning c).next (entered c s) = .ok t := by
  rw [underway_eq hN c msgs h s]
  cases msgs.foldlM (meaning c).next (entered c s) with
  | error fault => simp [Except.map]
  | ok t' => simp [Except.map]

/-- The source's run of a connection is the fold of the abstract callback. -/
theorem call_eq {N : Nat} (hN : 8 < N) (c : Call) (msgs : List Bytes) (h : Fit N msgs)
    (s : CallState) :
    c.operation.call N s msgs =
      (msgs.foldlM (meaning c).next (entered c s)).map (finishedSession c N msgs) := by
  have hrun := receive_eq hN c msgs h (openedSession c N s) rfl
  rw [show (openedSession c N s).state = entered c s from rfl] at hrun
  simp only [Operation.call, bind, Except.bind, step_connected, hrun]
  cases msgs.foldlM (meaning c).next (entered c s) with
  | error fault => rfl
  | ok s' =>
    simp [Except.map, Operation.step, c.operation_onConnection, connectionCallback,
      finishedSession, openedSession]

/-- A call that comes back has gone through its messages one by one. -/
theorem call_ok_iff {N : Nat} (hN : 8 < N) (c : Call) (msgs : List Bytes) (h : Fit N msgs)
    (s : CallState) (x : Session) :
    c.operation.call N s msgs = .ok x ↔
      ∃ s', msgs.foldlM (meaning c).next (entered c s) = .ok s' ∧
        x = finishedSession c N msgs s' := by
  rw [call_eq hN c msgs h s]
  cases msgs.foldlM (meaning c).next (entered c s) with
  | error fault => simp [Except.map]
  | ok s' => simp [Except.map, eq_comm]

/-- The callback leaves by an exception: the version is no number `std::stoi` reads. -/
def Rejected (c : Call) (m : Bytes) : Prop :=
  c = .host .getVersion ∧ (reading m).status ≠ -1 ∧ (reading m).result ≠ [] ∧
    ¬ (stoi16 (reading m).result).isOk

theorem next_ok_iff (c : Call) (s : CallState) (m : Bytes) :
    (∃ t, (meaning c).next s m = .ok t) ↔ ¬ Rejected c m := by
  unfold Rejected
  cases c with
  | device c => simp [meaning]
  | hostSerial c => simp [meaning]
  | host c =>
    cases c with
    | getVersion =>
      simp only [meaning, hostNext, bind, Except.bind, pure, Except.pure, true_and]
      split
      next hnumber =>
        cases hversion : stoi16 (reading m).result with
        | error fault => simp [hnumber, Except.isOk, Except.toBool]
        | ok version => simp [Except.isOk, Except.toBool]
      next hnumber => simp_all
    | _ => simp [meaning, hostNext]

/-- A call comes back from its messages, whatever the state, unless it rejects one. -/
theorem next_run_ok_iff (c : Call) (s : CallState) (msgs : List Bytes) :
    (∃ t, msgs.foldlM (meaning c).next s = .ok t) ↔ ∀ m ∈ msgs, ¬ Rejected c m :=
  Support.Stream.run_ok_iff (next_ok_iff c)

theorem foldlM_ok (f : CallState → Bytes → CallState) (msgs : List Bytes) (s : CallState) :
    msgs.foldlM (fun s m => Except.ok (ε := Fault) (f s m)) s = .ok (msgs.foldl f s) :=
  List.foldlM_pure

/-- The operations on a device always come back. -/
theorem device_call {N : Nat} (hN : 8 < N) (c : LocalCommand.Call) (msgs : List Bytes)
    (h : Fit N msgs) (s : CallState) :
    c.operation.call N s msgs =
      .ok (finishedSession (.device c) N msgs
        (msgs.foldl (deviceNext c) (entered (.device c) s))) := by
  have hcall := call_eq hN (.device c) msgs h s
  rw [show (meaning (.device c)).next = fun s m => .ok (deviceNext c s m) from rfl,
    foldlM_ok] at hcall
  exact hcall

theorem finishedSession_written (c : Call) (N : Nat) (msgs : List Bytes) (s : CallState) :
    (finishedSession c N msgs s).written =
      frame c.operation.command :: msgs.flatMap (meaning c).sends := by
  simp [Session.written, finishedSession, exchange, List.flatMap_map]

@[simp] theorem finishedSession_returned (c : Call) (N : Nat) (msgs : List Bytes)
    (s : CallState) : (finishedSession c N msgs s).returned = some s.status := rfl

end AdbClient.Abstract
