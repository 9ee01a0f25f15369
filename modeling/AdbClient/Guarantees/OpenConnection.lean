import AdbClient.Guarantees.ConnectionBounds
import AdbClient.Guarantees.ConnectionWire

/-!
# A call on a connection that is already open

`track_devices` returns and leaves its connection open. The next call on the object
starts no other one: its callbacks take over the connection and what the server still
sends on it. The call comes back when that connection ends, with what it would have
come back with on a connection of its own; only its request was never sent.
-/
namespace AdbClient.Guarantees.OpenConnection
open Source Abstract Support.Transition Interleaving ConnectionBounds ConnectionWire

/-- No start opens a connection, and no other call begins. -/
def OpensNone (s : CommandObject) : Action → Prop
  | .setCommand _ => False
  | .startConnect created | .runQueued created => ¬ Opens created s.channel
  | _ => True

instance (s : CommandObject) : (a : Action) → Decidable (OpensNone s a)
  | .setCommand _ => isFalse id
  | .startConnect _ | .runQueued _ => inferInstanceAs (Decidable (¬ _))
  | .clearFinished | .start | .test | .wakeSpuriously | .leave | .connect | .message _ | .close
  | .closeCallback | .notifyAll => isTrue trivial

/-- The call has the one open connection, and no message overruns the buffer. -/
def OnOpen (N : Nat) (x : Execution) (m : Move) : Prop :=
  OpensNone x.object m.action ∧ LeavesRoom N m.action

instance (N : Nat) (x : Execution) (m : Move) : Decidable (OnOpen N x m) :=
  inferInstanceAs (Decidable (_ ∧ _))

/-- What the callback of `c` has made of the messages so far, with no connected
event before them. -/
def Heard (N : Nat) (c : WaitingCall) (entry : CallState) (z : Session) : Prop :=
  ∃ msgs, Fit N msgs ∧
    c.call.operation.receive (c.call.operation.start N entry) msgs = .ok z

/-- The calling thread has not seen the flag, nor is there one to see. -/
def UnderWay (s : CommandObject) : Prop :=
  s.phase ≠ .idle ∧ s.phase ≠ .passed ∧ (s.phase ≠ .armed → s.commandFinished = false)

/-- The connection is open, or its close callback has still to run. -/
def Ongoing (s : CommandObject) : Prop := s.channel = some .connected ∨ s.duty = .closing

/-- What the caller has been told once the close callback has run. -/
def HeardOut (N : Nat) (c : WaitingCall) (entry : CallState) (calls : List Completed)
    (z : Session) : Prop :=
  (∃ y, Heard N c entry y ∧ c.call.operation.step y .closed = .ok z) ∧
    ∀ i ∈ calls, i = ⟨c, entry.output, entry.version, z⟩

/-- The invariant: the call under way is the one that began on the open connection,
and nothing is written beyond what was. -/
structure TakesOver (N : Nat) (c : WaitingCall) (entry : CallState) (written : Nat)
    (calls : List Completed) (x : Execution) : Prop where
  current : x.object.current = some c
  found : x.entry = entry
  memory : x.session.memory = zeroed N
  wrote : x.object.history.countP isWrote = written
  channel : x.object.channel = some .connected ∧ x.object.duty = .free ∨
    x.object.channel = some .closed
  ongoing : Ongoing x.object → UnderWay x.object ∧ Heard N c entry x.session ∧ calls = []
  finished : ¬ Ongoing x.object → HeardOut N c entry calls x.session

section Step
variable {N : Nat} {c : WaitingCall} {entry : CallState} {written : Nat} {calls : List Completed}
  {x : Execution} {m : Move} {s : CommandObject}

/-- A call that begins on an open connection. -/
theorem takesOver_begun (hopen : x.object.channel = some .connected)
    (hfree : x.object.duty = .free) (hmemory : x.session.memory = zeroed N) (output : Bytes)
    (version : Int) :
    TakesOver N c (x.enter c output version) (x.object.history.countP isWrote) []
      (x.next ⟨.setCommand c, output, version⟩) := by
  have hongoing : Ongoing (x.next ⟨.setCommand c, output, version⟩).object := .inl hopen
  refine ⟨rfl, rfl, hmemory, rfl, .inl ⟨hopen, hfree⟩, ?_, fun hnot => absurd hongoing hnot⟩
  intro _
  refine ⟨⟨by simp [Execution.next, CommandObject.next], by simp [Execution.next,
    CommandObject.next], fun hne => absurd rfl hne⟩, ⟨[], by simp [Fit], ?_⟩, rfl⟩
  have hstart : c.call.operation.start N (x.enter c output version) =
      (x.next ⟨.setCommand c, output, version⟩).session := by
    simp only [Execution.next, Operation.start, hmemory]
  rw [hstart]
  rfl

/-- A step of either thread in which no callback runs and no connection is opened. -/
theorem takesOver_silent (h : TakesOver N c entry written calls x)
    (hcurrent : s.current = x.object.current) (hchannel : s.channel = x.object.channel)
    (hwrote : s.history.countP isWrote = x.object.history.countP isWrote)
    (hfree : x.object.duty = .free → s.duty = .free)
    (hclosing : s.duty = .closing ↔ x.object.duty = .closing)
    (hunderWay : UnderWay x.object → UnderWay s) :
    TakesOver N c entry written calls { x with object := s } := by
  have hongoing : Ongoing s ↔ Ongoing x.object := by rw [Ongoing, Ongoing, hchannel, hclosing]
  refine ⟨hcurrent.trans h.current, h.found, h.memory, hwrote.trans h.wrote, ?_, ?_, ?_⟩
  · rw [hchannel]
    exact h.channel.imp_left fun hopen => ⟨hopen.1, hfree hopen.2⟩
  · intro hs
    obtain ⟨hunder, hrest⟩ := h.ongoing (hongoing.mp hs)
    exact ⟨hunderWay hunder, hrest⟩
  · exact fun hs => h.finished fun hx => hs (hongoing.mpr hx)

/-- One more message for the callback that has taken over. -/
theorem heard_message {y z : Session} {bytes : Bytes} (h : Heard N c entry z)
    (hfit : bytes.length < N) (hstep : c.call.operation.step z (.message bytes) = .ok y) :
    Heard N c entry y := by
  obtain ⟨msgs, hmsgs, hreceive⟩ := h
  refine ⟨msgs ++ [bytes], ?_, ?_⟩
  · intro m hm
    rcases List.mem_append.mp hm with hm | hm
    · exact hmsgs m hm
    · rw [List.mem_singleton.mp hm]
      exact hfit
  · rw [Operation.receive] at hreceive ⊢
    rw [List.map_append, List.foldlM_append, hreceive, Support.Stream.ok_bind, List.map_singleton,
      List.foldlM_cons, hstep]
    rfl

theorem takesOver_message (hN : 8 < N) (h : TakesOver N c entry written calls x) {bytes : Bytes}
    (haction : m.action = .message bytes) (hchannel : x.object.channel = some .connected)
    (hfit : bytes.length < N) (hok : (x.handle (.message bytes)).isOk) :
    TakesOver N c entry written calls (x.next m) := by
  have hstep := step_message hN hfit c.call x.session h.memory
  cases hnext : (meaning c.call).next x.session.state bytes with
  | error fault =>
    rw [hnext] at hstep
    have hhandle : x.handle (.message bytes) = .error fault := by
      simp only [Execution.handle, Execution.event, h.current, hstep]
      rfl
    rw [hhandle] at hok
    cases hok
  | ok s' =>
    rw [hnext] at hstep
    obtain ⟨hunder, hheard, hcalls⟩ := h.ongoing (.inl hchannel)
    have hafter := heard_message hheard hfit hstep
    rw [Execution.next_handled (by rw [haction]; rfl) h.current hstep, haction,
      CommandObject.next_message, CommandObject.onMessage_eq]
    refine ⟨h.current, h.found, rfl, ?_, h.channel, fun _ => ⟨hunder, hafter, hcalls⟩, ?_⟩
    · simp [h.current, isWrote, h.wrote]
    · exact fun hnot => absurd (.inl hchannel) hnot

/-- The close callback tells the call what it has heard. -/
theorem takesOver_closeCallback (h : TakesOver N c entry written calls x)
    (haction : m.action = .closeCallback) (hclosing : x.object.duty = .closing) :
    TakesOver N c entry written calls (x.next m) := by
  have hchannel : x.object.channel = some .closed := by
    rcases h.channel with ⟨-, hfree⟩ | hclosed
    · rw [hclosing] at hfree
      cases hfree
    · exact hclosed
  have hdisconnected : isConnected x.object.channel = false := by rw [hchannel]; rfl
  obtain ⟨-, hheard, hcalls⟩ := h.ongoing (.inr hclosing)
  have hevent : x.event m.action = some .closed := by
    rw [haction]
    simp [Execution.event, Execution.connectionEvent, hdisconnected]
  obtain ⟨y, hstep, hmemory⟩ : ∃ y, c.call.operation.step x.session .closed = .ok y ∧
      y.memory = x.session.memory := ⟨_, rfl, rfl⟩
  have hover : ¬ Ongoing { x.object with commandFinished := true, duty := .notifying } := by
    simp [Ongoing, hchannel]
  rw [Execution.next_handled hevent h.current hstep, haction, CommandObject.next_closeCallback,
    CommandObject.onConnection_disconnected h.current hdisconnected]
  refine ⟨h.current, h.found, hmemory.trans h.memory, h.wrote, .inr hchannel,
    fun hs => absurd hs hover, fun _ => ⟨⟨_, hheard, hstep⟩, ?_⟩⟩
  rw [hcalls]
  simp

/-- The flag is down and stays down. -/
theorem underWay_goesOn {t : CommandObject} (hunder : UnderWay s) (hcleared : s.phase ≠ .armed)
    (hflag : t.commandFinished = s.commandFinished) (hbegun : t.phase ≠ .idle)
    (hunseen : t.phase ≠ .passed) : UnderWay t :=
  ⟨hbegun, hunseen, fun _ => hflag.trans (hunder.2.2 hcleared)⟩

/-- One step of either thread: nothing the caller sees, or the return of the call. -/
theorem takesOver_next (hN : 8 < N) (h : TakesOver N c entry written calls x)
    (henabled : x.Enabled m) (hguard : OnOpen N x m) :
    TakesOver N c entry written (calls ++ returns x m) (x.next m) := by
  obtain ⟨action, output, version⟩ := m
  obtain ⟨henabled, hok⟩ := henabled
  obtain ⟨hopens, hfit⟩ := hguard
  cases action with
  | setCommand c' => exact hopens.elim
  | clearFinished =>
    rw [returns, List.append_nil]
    refine takesOver_silent h rfl rfl rfl id Iff.rfl ?_
    exact fun _ => ⟨by simp [CommandObject.next], by simp [CommandObject.next], fun _ => rfl⟩
  | startConnect created =>
    have hphase : x.object.phase = .cleared := henabled
    have hsame := CommandObject.connectTo_not_opens hopens
    rw [returns, List.append_nil]
    refine takesOver_silent h ?_ ?_ ?_ ?_ ?_ ?_
    all_goals simp only [CommandObject.next, hsame]
    · exact id
    · exact fun hunder => underWay_goesOn hunder (by simp [hphase]) rfl (by simp) (by simp)
  | runQueued created =>
    have hsame := CommandObject.connectTo_not_opens hopens
    rw [returns, List.append_nil]
    refine takesOver_silent h ?_ ?_ ?_ ?_ ?_ ?_
    all_goals simp only [CommandObject.next, hsame]
    · exact id
    · exact id
  | start =>
    have hphase : x.object.phase = .started := henabled
    rw [returns, List.append_nil]
    refine takesOver_silent h rfl rfl rfl id Iff.rfl ?_
    exact fun hunder => underWay_goesOn hunder (by simp [hphase]) rfl (by simp [CommandObject.next])
      (by simp [CommandObject.next])
  | test =>
    have hphase : x.object.phase = .testing := henabled
    rw [returns, List.append_nil]
    refine takesOver_silent h rfl rfl rfl id Iff.rfl ?_
    intro hunder
    have hflag := hunder.2.2 (by simp [hphase])
    exact underWay_goesOn hunder (by simp [hphase]) rfl (by simp [CommandObject.next, hflag])
      (by simp [CommandObject.next, hflag])
  | wakeSpuriously =>
    have hphase : x.object.phase = .blocked := henabled
    rw [returns, List.append_nil]
    refine takesOver_silent h rfl rfl rfl id Iff.rfl ?_
    exact fun hunder => underWay_goesOn hunder (by simp [hphase]) rfl (by simp [CommandObject.next])
      (by simp [CommandObject.next])
  | leave =>
    have hphase : x.object.phase = .passed := henabled
    have hnot : ¬ Ongoing x.object := fun hongoing => (h.ongoing hongoing).1.2.1 hphase
    obtain ⟨hheard, htold⟩ := h.finished hnot
    have hreturns : returns x ⟨.leave, output, version⟩ =
        [⟨c, entry.output, entry.version, x.session⟩] := by
      simp only [returns, h.current, h.found]
    refine ⟨h.current, h.found, h.memory, ?_, h.channel, fun hongoing => absurd hongoing hnot, ?_⟩
    · rw [← h.wrote]
      simp [Execution.next, CommandObject.next, isWrote]
    · refine fun _ => ⟨hheard, ?_⟩
      rw [hreturns]
      intro i hi
      rcases List.mem_append.mp hi with hi | hi
      · exact htold i hi
      · exact List.mem_singleton.mp hi
  | connect =>
    rcases h.channel with ⟨hopen, -⟩ | hclosed
    · rw [henabled.2] at hopen
      cases hopen
    · rw [henabled.2] at hclosed
      cases hclosed
  | message bytes =>
    rw [returns, List.append_nil]
    exact takesOver_message hN h rfl henabled.2 hfit hok
  | close =>
    have hopen : x.object.channel = some .connected := by
      rcases h.channel with ⟨hopen, -⟩ | hclosed
      · exact hopen
      · rcases henabled.2 with hl | hl <;> rw [hclosed] at hl <;> cases hl
    rw [returns, List.append_nil]
    exact ⟨h.current, h.found, h.memory, h.wrote, .inr rfl, fun _ => h.ongoing (.inl hopen),
      fun hnot => absurd (.inr rfl) hnot⟩
  | closeCallback =>
    rw [returns, List.append_nil]
    exact takesOver_closeCallback h rfl henabled
  | notifyAll =>
    have hduty : x.object.duty = .notifying := henabled
    rw [returns, List.append_nil]
    refine takesOver_silent h rfl rfl rfl (fun _ => rfl) ?_ ?_
    · simp [CommandObject.next, hduty]
    · intro hunder
      by_cases hblocked : x.object.phase = .blocked
      · exact underWay_goesOn hunder (by simp [hblocked]) rfl
          (by simp [CommandObject.next, hblocked]) (by simp [CommandObject.next, hblocked])
      · have hsame : (x.object.next .notifyAll).phase = x.object.phase := if_neg hblocked
        rw [UnderWay, hsame]
        exact hunder

/-- What the callback has heard, it would have heard on a connection of its own. -/
theorem told_as_if_asked (hN : 8 < N) (h : HeardOut N c entry calls x.session) {i : Completed}
    (hi : i ∈ calls) :
    Fit N (received i.session) ∧ ∃ z, c.call.operation.call N entry (received i.session) = .ok z ∧
      i.session.state = z.state ∧
      z.written = frame c.call.operation.command :: i.session.written := by
  obtain ⟨⟨y, ⟨msgs, hfit, hreceive⟩, hstep⟩, htold⟩ := h
  rw [receive_eq hN c.call msgs hfit _ rfl] at hreceive
  obtain ⟨s', hfold, hy⟩ := Support.Stream.map_eq_ok hreceive
  have hcall := (call_ok_iff hN c.call msgs hfit entry _).mpr ⟨s', hfold, rfl⟩
  have hsession : x.session =
      ⟨s', zeroed N, true, exchange c.call msgs ++ [(.closed, [])]⟩ := by
    rw [← hy] at hstep
    simp only [Operation.step, c.call.operation_onConnection, connectionCallback, Operation.start,
      Except.ok.injEq, Bool.false_eq_true, if_false, Bool.or_true, List.nil_append] at hstep
    exact hstep.symm
  have hreceived : received i.session = msgs := by
    rw [htold i hi, hsession]
    simp [received, exchange, List.filterMap_map]
  rw [hreceived]
  refine ⟨hfit, _, hcall, ?_, ?_⟩
  · rw [htold i hi, hsession]
    rfl
  · rw [finishedSession_written, htold i hi, hsession]
    simp [Session.written, exchange, List.flatMap_map]

end Step
section Runs
variable {N : Nat} {x y : Execution} {moves : List Move}

end Runs

/-- `track_devices` has had its first update. -/
def tracking : Execution :=
  { Execution.fresh 64 with object := { CommandObject.fresh with channel := some .connected } }

/-- What becomes of a `kill` behind it: one more update, and the end of the tracking. -/
def killBehind : List Move :=
  [.clearFinished, .startConnect true, .start, .test, .runQueued true, .message (ascii "0000"),
    .close, .closeCallback, .notifyAll, .test, .leave].map (⟨·, [], 0⟩)

end AdbClient.Guarantees.OpenConnection
