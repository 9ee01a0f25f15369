import AdbClient.Guarantees.Interleaving
import AdbClient.Guarantees.ReadBounds
import AdbClient.Support.Outcome

/-!
# Where a run can fail

A callback that throws or reads past the read buffer ends the process, whatever the
other thread is doing. With the buffer cleared by each callback it depends on one
message and the operation it reaches, however many connections there have been and
in whatever order the calls and the events came: a number `std::stoi` does not read,
or a message that fills the buffer. What a debug build logs adds a read at the start
of the message, and nothing else; of messages that leave room it takes no notice.
-/
namespace AdbClient.Guarantees.CallbackFailures
open Source Abstract Support.Transition Support.Outcome ReadBounds

/-- A message is no longer than the read buffer. -/
def InBuffer (N : Nat) : Action → Prop
  | .message bytes => bytes.length ≤ N
  | _ => True

instance (N : Nat) : (a : Action) → Decidable (InBuffer N a)
  | .message _ => inferInstanceAs (Decidable (_ ≤ _))
  | .setCommand _ | .clearFinished | .startConnect _ | .start | .test | .wakeSpuriously | .leave
  | .runQueued _ | .connect | .close | .closeCallback | .notifyAll => isTrue trivial

/-- A string that is read at one of the offsets does not end in the read buffer. -/
def Overruns (N : Nat) (offsets : List Nat) (m : Bytes) : Prop :=
  m.length = N ∧ ∃ k ∈ offsets, 0 ∉ m.drop k

/-- Where the log reads the message. -/
def logOffsets : Build → Call → List Nat
  | .release, _ | .debug, .device (.screencap _) => []
  | .debug, _ => [0]

/-- Where the callback, with its log, reads strings in a message that fills the
buffer. -/
def readOffsets (build : Build) (c : Call) (m : Bytes) : List Nat :=
  logOffsets build c ++ stringOffsets c m

section Reads
variable {α : Type}

/-- The reads of the buffer fail in one way only. -/
def ReadsOnly (x : Except Fault α) : Prop := Ends (fun _ => True) (· = Fault.outOfBounds) x

theorem load_ends (o : Option α) : ReadsOnly (load o) := by
  cases o with
  | none => rfl
  | some a => trivial

theorem cStringAt_ends (buf : Buffer) (k : Nat) : ReadsOnly (buf.cStringAt k) := load_ends _

theorem strncmp_ends (buf : Buffer) (literal : Bytes) (n : Nat) :
    ReadsOnly (buf.strncmp literal n) := load_ends _

theorem strcmp_ends (buf : Buffer) (literal : Bytes) : ReadsOnly (buf.strcmp literal) :=
  load_ends _

theorem strstr_ends (buf : Buffer) (needle : Bytes) : ReadsOnly (buf.strstr needle) :=
  (cStringAt_ends buf 0).bind fun _ _ => trivial

theorem readProtocolString_ends (buf : Buffer) (result error : Bytes) :
    ReadsOnly (readProtocolString buf result error) := by
  have hread : ∀ {β : Type} (k : Nat) (f : Bytes → β),
      ReadsOnly (buf.cStringAt k >>= fun text => pure (f text)) := by
    intro β k f
    exact (cStringAt_ends buf k).bind fun _ _ => trivial
  refine .ite ?_ (.ite ?_ (hread 0 _))
  · refine (strncmp_ends buf okay 4).bind fun _ _ => .ite (hread 8 _) ?_
    exact (strncmp_ends buf fail 4).bind fun _ _ => .ite (hread 8 _) (hread 4 _)
  · refine (strncmp_ends buf okay 4).bind fun _ _ => .ite trivial ?_
    exact (strncmp_ends buf fail 4).bind fun _ _ => .ite trivial trivial

theorem respondTransportCommand_ends (buf : Buffer) (cmd : Bytes) :
    ReadsOnly (respondTransportCommand buf cmd) := by
  refine .ite ?_ trivial
  refine (strncmp_ends buf okay 4).bind fun _ _ => .ite trivial ?_
  exact (strncmp_ends buf fail 4).bind fun _ _ => .ite trivial trivial

end Reads

section Callbacks
variable {s : CallState} {buf : Buffer}

/-- A callback that comes back has cleared its message. -/
def Clears (buf : Buffer) (h : Handled) : Prop := h.memory = buf.memset

theorem host_ends (c : HostCommand.Call) (hc : c ≠ .getVersion) :
    Ends (Clears buf) (· = Fault.outOfBounds) (c.operation.onMessage s buf) := by
  cases c with
  | getVersion => exact absurd rfl hc
  | _ => exact (readProtocolString_ends buf _ _).bind fun _ _ => rfl

theorem getVersion_ends :
    Ends (Clears buf) (fun _ => True) (HostCommand.getVersion.onMessage s buf) := by
  have hread := (readProtocolString_ends buf [] s.error).imp (fun _ => id) fun _ _ => trivial
  have hnumber : ∀ data, Ends (fun _ => True) (fun _ => True) (stoi16 data) := by
    intro data
    cases stoi16 data <;> trivial
  exact hread.bind fun r _ => .ite ((hnumber r.2.1).bind fun _ _ => rfl) rfl

theorem hostSerial_ends (c : HostSerialCommand.Call) :
    Ends (Clears buf) (· = Fault.outOfBounds) (c.operation.onMessage s buf) := by
  cases c <;> exact (readProtocolString_ends buf _ _).bind fun _ _ => rfl

theorem device_ends (c : LocalCommand.Call) :
    Ends (Clears buf) (· = Fault.outOfBounds) (c.operation.onMessage s buf) := by
  cases c with
  | shell serial command =>
    refine (respondTransportCommand_ends buf _).bind fun _ _ => .ite ?_ rfl
    exact (strncmp_ends buf okay 4).bind fun _ _ =>
      .ite rfl ((cStringAt_ends buf 0).bind fun _ _ => rfl)
  | listReverse serial =>
    refine (respondTransportCommand_ends buf _).bind fun _ _ => .ite ?_ rfl
    exact (strstr_ends buf okay).bind fun _ _ =>
      .ite ((cStringAt_ends buf 8).bind fun _ _ => rfl) ((cStringAt_ends buf 4).bind fun _ _ => rfl)
  | screencap serial =>
    refine .ite ?_ rfl
    refine (strcmp_ends buf okay).bind fun _ _ => .ite rfl ?_
    exact (strcmp_ends buf fail).bind fun _ _ => .ite rfl rfl
  | _ => exact (respondTransportCommand_ends buf _).bind fun _ _ => rfl

/-- Only the number of `get_version` makes a callback fail in another way. -/
theorem onMessage_ends (c : Call) :
    Ends (Clears buf) (fun fault => c ≠ .host .getVersion → fault = .outOfBounds)
      (c.operation.onMessage s buf) := by
  cases c with
  | device c => exact (device_ends c).imp (fun _ => id) fun _ h _ => h
  | hostSerial c => exact (hostSerial_ends c).imp (fun _ => id) fun _ h _ => h
  | host c =>
    by_cases hc : c = .getVersion
    · subst hc
      exact getVersion_ends.imp (fun _ => id) fun _ _ hne => absurd rfl hne
    · exact (host_ends c hc).imp (fun _ => id) fun _ h _ => h

end Callbacks

section OneMessage
variable {N : Nat} {c : Call} {s : CallState} {m : Bytes}

theorem isOk_iff {α : Type} {x : Except Fault α} : x.isOk ↔ ∃ a, x = .ok a := by
  cases x with
  | ok a => simp [Except.isOk, Except.toBool]
  | error fault => simp [Except.isOk, Except.toBool]

/-- What only reads comes back if and only if its reads stay in the buffer. -/
theorem isOk_iff_inBounds {α : Type} {P : α → Prop} {x : Except Fault α}
    (h : Ends P (· = Fault.outOfBounds) x) : x.isOk ↔ InBounds x := by
  cases x with
  | ok a => exact iff_of_true rfl (inBounds_ok a)
  | error fault =>
    have hfault : fault = .outOfBounds := h
    exact iff_of_false (fun hok => by cases hok) fun hin => hin (by rw [hfault])

/-- On a message that fills the buffer the parser reads the same text, when it ends. -/
theorem readProtocolString_zero (hN : 8 < N) (h : m.length = N)
    (hzero : 0 ∈ m.drop (if okay <+: m ∨ fail <+: m then 8 else 4)) (result error : Bytes) :
    readProtocolString (deliver (zeroed N) m) result error =
      .ok ((reading m).status, result ++ (reading m).result, error ++ (reading m).error) := by
  have hin := (readProtocolString_full hN h result error).mpr hzero
  have hends := readProtocolString_ends (deliver (zeroed N) m) result error
  obtain ⟨r, hr⟩ := isOk_iff.mp ((isOk_iff_inBounds hends).mpr hin)
  rw [hr, readProtocolString_eq_ok hr]

/-- The callbacks on a message that fills the buffer. -/
theorem inBounds_full_iff (hN : 8 < N) (h : m.length = N) (c : Call) (s : CallState) :
    InBounds (c.operation.onMessage s (deliver (zeroed N) m)) ↔
      ∀ k ∈ stringOffsets c m, 0 ∈ m.drop k := by
  cases c with
  | device c => exact deviceCallback_iff hN h c s
  | hostSerial c =>
    have hc : (Call.hostSerial c).OnHost := trivial
    rw [stringOffsets, List.forall_mem_singleton]
    exact hostCallback_iff hc (readProtocolString_full hN h) s
  | host c =>
    have hc : (Call.host c).OnHost := trivial
    rw [stringOffsets, List.forall_mem_singleton]
    exact hostCallback_iff hc (readProtocolString_full hN h) s

theorem overruns_iff (h : m.length = N) {offsets : List Nat} :
    ¬ Overruns N offsets m ↔ ∀ k ∈ offsets, 0 ∈ m.drop k := by
  simp [Overruns, h]

theorem overruns_append {offsets more : List Nat} :
    Overruns N (offsets ++ more) m ↔ Overruns N offsets m ∨ Overruns N more m := by
  simp only [Overruns, List.mem_append, or_and_right, exists_or, and_or_left]

theorem next_isOk_iff : ((meaning c).next s m).isOk ↔ ¬ Rejected c m :=
  isOk_iff.trans (next_ok_iff c s m)

theorem map_isOk {α β : Type} {x : Except Fault α} (f : α → β) : (x.map f).isOk = x.isOk := by
  cases x <;> rfl

/-- `get_version` reads its number from the text of a full message as from another. -/
theorem getVersion_full_iff (hN : 8 < N) (h : m.length = N) :
    (HostCommand.getVersion.onMessage s (deliver (zeroed N) m)).isOk ↔
      ¬ Overruns N (stringOffsets (.host .getVersion) m) m ∧ ¬ Rejected (.host .getVersion) m := by
  have hinbounds := inBounds_full_iff hN h (.host .getVersion) s
  rw [overruns_iff h, ← hinbounds]
  by_cases hzero : 0 ∈ m.drop (if okay <+: m ∨ fail <+: m then 8 else 4)
  · have hin : InBounds ((Call.host .getVersion).operation.onMessage s (deliver (zeroed N) m)) :=
      hinbounds.mpr (by simpa [stringOffsets] using hzero)
    have hread := readProtocolString_zero hN h hzero
    have hcallback : HostCommand.getVersion.onMessage s (deliver (zeroed N) m) =
        ((meaning (.host .getVersion)).next s m).map fun s' => ⟨s', [], zeroed N, false⟩ := by
      simp only [HostCommand.getVersion, HostCommand.hostOperation, hread, memset_deliver h.le,
        meaning, hostNext, takeReading, bind, Except.bind, pure, Except.pure, List.nil_append]
      split
      · cases stoi16 (reading m).result <;> rfl
      · rfl
    rw [hcallback, map_isOk, next_isOk_iff]
    exact (and_iff_right hin).symm
  · have hout : ¬ InBounds ((Call.host .getVersion).operation.onMessage s
        (deliver (zeroed N) m)) :=
      fun hin => hzero (by simpa [stringOffsets] using hinbounds.mp hin)
    refine iff_of_false ?_ fun hboth => hout hboth.1
    intro hok
    obtain ⟨handled, hhandled⟩ := isOk_iff.mp hok
    exact hout (hhandled ▸ inBounds_ok handled)

/-- **One message.** The callback comes back unless a string it reads overruns the
buffer or `std::stoi` rejects the number. -/
theorem onMessage_isOk_iff (hN : 8 < N) (h : m.length ≤ N) (c : Call) (s : CallState) :
    (c.operation.onMessage s (deliver (zeroed N) m)).isOk ↔
      ¬ Overruns N (stringOffsets c m) m ∧ ¬ Rejected c m := by
  rcases Nat.lt_or_eq_of_le h with hshort | hfull
  · rw [onMessage_deliver hN hshort, map_isOk, next_isOk_iff]
    have hroom : ¬ Overruns N (stringOffsets c m) m := fun hover => hshort.ne hover.1
    exact (and_iff_right hroom).symm
  · by_cases hc : c = .host .getVersion
    · subst hc
      exact getVersion_full_iff hN hfull
    · have honly : Ends (Clears (deliver (zeroed N) m)) (· = Fault.outOfBounds)
          (c.operation.onMessage s (deliver (zeroed N) m)) :=
        (onMessage_ends c).imp (fun _ => id) fun _ hfault => hfault hc
      have haccepted : ¬ Rejected c m := fun hrejected => hc hrejected.1
      rw [isOk_iff_inBounds honly, inBounds_full_iff hN hfull, overruns_iff hfull]
      exact (and_iff_left haccepted).symm

end OneMessage

section Step
variable {N : Nat} {x : Execution} {m : Move} {c : WaitingCall} {y z : Session}

theorem step_memory (hmemory : z.memory = zeroed N) {e : Event}
    (hfit : ∀ bytes, e = .message bytes → bytes.length ≤ N)
    (hstep : c.call.operation.step z e = .ok y) : y.memory = zeroed N := by
  cases e with
  | connected | closed =>
    cases hstep
    exact hmemory
  | message bytes =>
    obtain ⟨handled, hhandled, hreturn⟩ := Support.Stream.bind_eq_ok hstep
    cases hreturn
    rw [hmemory] at hhandled
    have hclears : Clears (deliver (zeroed N) bytes) handled :=
      (onMessage_ends c.call).of_ok hhandled
    exact hclears.trans (memset_deliver (hfit bytes rfl))

/-- The connection callback never fails. -/
theorem step_connection_isOk (channel : Option ChannelStatus) :
    (c.call.operation.step z (Execution.connectionEvent channel)).isOk := by
  unfold Execution.connectionEvent
  split <;> rfl

/-- What is handed to a callback as a message is the message received. -/
theorem event_message {a : Action} {bytes : Bytes} (h : x.event a = some (.message bytes)) :
    a = .message bytes := by
  cases a with
  | message bytes' =>
    cases h
    rfl
  | connect => cases h
  | closeCallback =>
    simp only [Execution.event, Execution.connectionEvent, Option.some.injEq] at h
    split at h <;> cases h
  | _ => cases h

theorem handle_memory (hmemory : x.session.memory = zeroed N) {a : Action}
    (hfit : InBuffer N a) (hhandle : x.handle a = .ok y) : y.memory = zeroed N := by
  unfold Execution.handle at hhandle
  split at hhandle
  next e c hevent _ =>
    refine step_memory hmemory (fun bytes he => ?_) hhandle
    obtain rfl := event_message (he ▸ hevent)
    exact hfit
  next =>
    cases hhandle
    exact hmemory

/-- No step leaves anything behind in the read buffer. -/
theorem memory_next (hmemory : x.session.memory = zeroed N) (hfit : InBuffer N m.action) :
    (x.next m).session.memory = zeroed N := by
  unfold Execution.next
  split
  next => exact hmemory
  next =>
    cases hhandle : x.handle m.action with
    | error fault => exact hmemory
    | ok y => exact handle_memory hmemory hfit hhandle

theorem handle_isOk_iff (hN : 8 < N) (hmemory : x.session.memory = zeroed N) {a : Action}
    (hfit : InBuffer N a) :
    (x.handle a).isOk ↔ ∀ c bytes, a = .message bytes → x.object.current = some c →
      ¬ Overruns N (stringOffsets c.call bytes) bytes ∧ ¬ Rejected c.call bytes := by
  cases hcurrent : x.object.current with
  | none =>
    have hsame : x.handle a = .ok x.session := by
      unfold Execution.handle
      rw [hcurrent]
      cases x.event a <;> rfl
    rw [hsame]
    exact iff_of_true rfl fun c bytes _ hc => by cases hc
  | some c =>
    cases a with
    | message bytes =>
      have hstep : (x.handle (.message bytes)).isOk =
          (c.call.operation.onMessage x.session.state (deliver (zeroed N) bytes)).isOk := by
        simp only [Execution.handle, Execution.event, hcurrent, Operation.step, hmemory, bind,
          Except.bind]
        cases c.call.operation.onMessage x.session.state (deliver (zeroed N) bytes) <;> rfl
      rw [hstep, onMessage_isOk_iff hN hfit]
      constructor
      · rintro h c' bytes' hbytes hc
        cases hbytes
        cases hc
        exact h
      · exact fun h => h c bytes rfl rfl
    | connect | closeCallback =>
      refine iff_of_true ?_ fun c bytes ha => by cases ha
      simp only [Execution.handle, Execution.event, hcurrent]
      exact step_connection_isOk _
    | _ =>
      refine iff_of_true ?_ fun c bytes ha => by cases ha
      rfl

/-- The log comes back unless it reads past the buffer. -/
theorem log_isOk_iff {c : Call} {bytes : Bytes} (hN : 8 < N) (hfit : bytes.length ≤ N)
    (build : Build) :
    (c.log build (deliver (zeroed N) bytes)).isOk ↔ ¬ Overruns N (logOffsets build c) bytes := by
  have hread : ((deliver (zeroed N) bytes).cStringAt 0 >>= fun _ => pure ()).isOk ↔
      ¬ Overruns N [0] bytes := by
    rcases Nat.lt_or_eq_of_le hfit with hshort | hfull
    · rw [cStringAt_deliver hshort (Nat.zero_lt_of_lt hN)]
      exact iff_of_true rfl fun hover => hshort.ne hover.1
    · rw [overruns_iff hfull, List.forall_mem_singleton, cStringAt_full hfull]
      split
      next hzero => exact iff_of_true rfl hzero
      next hzero => exact iff_of_false (fun hok => by cases hok) hzero
  have hnone : ¬ Overruns N [] bytes := by simp [Overruns]
  cases build with
  | release => exact iff_of_true rfl hnone
  | debug =>
    cases c with
    | host c | hostSerial c => exact hread
    | device c =>
      cases c with
      | screencap serial => exact iff_of_true rfl hnone
      | _ => exact hread

theorem bind_isOk_iff {α β : Type} {x : Except Fault α} {y : Except Fault β} :
    (x >>= fun _ => y).isOk ↔ x.isOk ∧ y.isOk := by
  cases x with
  | ok a => exact (and_iff_right rfl).symm
  | error fault => exact iff_of_false (fun hok => by cases hok) fun hboth => by cases hboth.1

theorem handleIn_isOk_iff (hN : 8 < N) (hmemory : x.session.memory = zeroed N) {a : Action}
    (hfit : InBuffer N a) (build : Build) :
    (x.handleIn build a).isOk ↔ ∀ c bytes, a = .message bytes → x.object.current = some c →
      ¬ Overruns N (readOffsets build c.call bytes) bytes ∧ ¬ Rejected c.call bytes := by
  have hlog : (x.log build a).isOk ↔ ∀ c bytes, a = .message bytes → x.object.current = some c →
      ¬ Overruns N (logOffsets build c.call) bytes := by
    unfold Execution.log
    split
    next bytes c hc =>
      rw [hmemory, log_isOk_iff hN hfit]
      constructor
      · rintro h c' bytes' hbytes hc'
        cases hbytes
        rw [hc] at hc'
        cases hc'
        exact h
      · exact fun h => h c bytes rfl hc
    next hother => exact iff_of_true rfl fun c bytes ha hc => absurd hc (hother bytes c ha)
  rw [Execution.handleIn, bind_isOk_iff, hlog, handle_isOk_iff hN hmemory hfit]
  simp only [readOffsets, overruns_append, not_or]
  constructor
  · exact fun h c bytes ha hc => ⟨⟨h.1 c bytes ha hc, (h.2 c bytes ha hc).1⟩, (h.2 c bytes ha hc).2⟩
  · exact fun h => ⟨fun c bytes ha hc => (h c bytes ha hc).1.1,
      fun c bytes ha hc => ⟨(h c bytes ha hc).1.2, (h c bytes ha hc).2⟩⟩

end Step

section Runs
variable {N : Nat} {x y : Execution} {moves : List Move} {o : Members}

theorem inBuffer_of_leavesRoom {a : Action} (h : Interleaving.LeavesRoom N a) : InBuffer N a := by
  cases a with
  | message bytes => exact Nat.le_of_lt h
  | _ => trivial

/-- A message that leaves room is logged. -/
theorem enabledIn_iff (build : Build) (hN : 8 < N) (hmemory : x.session.memory = zeroed N)
    {m : Move} (hroom : Interleaving.LeavesRoom N m.action) :
    x.EnabledIn build m ↔ x.Enabled m := by
  have hlog : (x.log build m.action).isOk := by
    unfold Execution.log
    split
    next bytes c ha hc =>
      rw [ha] at hroom
      have hshort : bytes.length < N := hroom
      rw [hmemory, log_isOk_iff hN hshort.le]
      exact fun hover => hshort.ne hover.1
    next => rfl
  unfold Execution.EnabledIn Execution.Enabled Execution.handleIn
  rw [bind_isOk_iff, and_iff_right hlog]

/-- The log leaves no trace in the runs whose messages leave room: they are those of the
object without it, in either build. -/
theorem run_systemIn_iff (build : Build) (hN : 8 < N) (hfresh : x.Fresh N o)
    {guard : Execution → Move → Prop}
    (hguard : ∀ x m, guard x m → Interleaving.LeavesRoom N m.action) :
    Run (Execution.systemIn build) guard x moves y ↔ Run Execution.system guard x moves y := by
  have hmemory : ∀ (x : Execution) m, guard x m → x.session.memory = zeroed N →
      (x.next m).session.memory = zeroed N :=
    fun x m hm hx => memory_next hx (inBuffer_of_leavesRoom (hguard x m hm))
  have hiff : ∀ (x : Execution) m, guard x m → x.session.memory = zeroed N →
      (x.EnabledIn build m ↔ x.Enabled m) :=
    fun x m hm hx => enabledIn_iff build hN hx (hguard x m hm)
  constructor
  · intro hrun
    refine hrun.transfer (fun x => x.session.memory = zeroed N) ?_ hfresh.2.1
    exact fun x m henabled hm hx => ⟨(hiff x m hm hx).mp henabled, rfl, hmemory x m hm hx⟩
  · intro hrun
    refine hrun.transfer (fun x => x.session.memory = zeroed N) ?_ hfresh.2.1
    exact fun x m henabled hm hx => ⟨(hiff x m hm hx).mpr henabled, rfl, hmemory x m hm hx⟩

end Runs

/-- A `get_version` that has returned, and the connection its second start opens. -/
def lateVersion : List Move :=
  [.setCommand ⟨.host .getVersion, trivial⟩, .clearFinished, .startConnect true, .start, .connect,
    .message (ascii "OKAY00040029"), .close, .closeCallback, .notifyAll, .test, .leave,
    .runQueued true, .connect].map (⟨·, [], 0⟩)

/-- A `usb` on its connection. -/
def openUsb : List Move :=
  [.setCommand ⟨.device (.usb (ascii "d17cdac6")), trivial⟩, .clearFinished, .startConnect true,
    .connect].map (⟨·, [], 0⟩)

end AdbClient.Guarantees.CallbackFailures
