import AdbClient.Source.CommandLoop

/-!
# One connection per call

Every operation starts its connection twice, on its own thread and through the
loop, and only the status of the channel keeps the second start from connecting
again. When the first connection is over by then, the second start opens another
one: it sends `m_command` once more, and its messages reach the callback of a
call that has returned. As long as no call opens a second connection, and none is
opened between calls, neither happens.
-/
namespace AdbClient.Guarantees.CallConnection
open Source Support.Transition CommandObject

def isWriteOf (k : Nat) : Mark → Bool
  | .wrote call _ => call = k
  | _ => false

def callOf : Mark → Nat
  | .opened call | .wrote call _ | .dispatched call _ | .returned call => call

/-- The frame of a call's `m_command` is written at most once. -/
def WrittenOnce (history : List Mark) : Prop := ∀ k, history.countP (isWriteOf k) ≤ 1

/-- No message reaches the callback of a call that has returned. -/
def QuietAfterReturn (history : List Mark) : Prop :=
  history.Pairwise fun e e' => ∀ k m, e = .returned k → e' ≠ .dispatched k m

/-- A start opens a connection only for a call under way that has had none. -/
def OpensOnce (s : CommandObject) : Action → Prop
  | .startConnect created | .runQueued created =>
      Opens created s.channel → s.phase ≠ .idle ∧ .opened s.calls ∉ s.history
  | _ => True

instance (s : CommandObject) : (a : Action) → Decidable (OpensOnce s a)
  | .startConnect created | .runQueued created =>
      inferInstanceAs (Decidable (Opens created _ → _ ≠ Phase.idle ∧ _))
  | .setCommand _ | .clearFinished | .start | .test | .wakeSpuriously | .leave | .connect
  | .message _ | .close | .closeCallback | .notifyAll => isTrue trivial

section History
variable {history : List Mark} {e : Mark} {n : Nat}

theorem writtenOnce_append (h : WrittenOnce history)
    (he : ∀ k, isWriteOf k e → history.countP (isWriteOf k) = 0) :
    WrittenOnce (history ++ [e]) := by
  intro k
  rw [List.countP_append, List.countP_singleton]
  split
  next hk =>
    have := he k hk
    omega
  next => exact h k

theorem quietAfterReturn_append (h : QuietAfterReturn history)
    (he : ∀ k m, e = .dispatched k m → .returned k ∉ history) :
    QuietAfterReturn (history ++ [e]) := by
  apply List.pairwise_append.mpr ⟨h, List.pairwise_singleton _ _, _⟩
  intro e' he' d hd k m hreturned hdispatched
  obtain rfl := List.mem_singleton.mp hd
  exact he k m hdispatched (hreturned ▸ he')

theorem recorded_append (h : ∀ e ∈ history, callOf e ≤ n) (he : callOf e = n) :
    ∀ e' ∈ history ++ [e], callOf e' ≤ n := by
  intro e' he'
  rcases List.mem_append.mp he' with he' | he'
  · exact h e' he'
  · rw [List.mem_singleton.mp he', he]

/-- Nothing is written for a call that has not begun. -/
theorem count_of_recorded (h : ∀ e ∈ history, callOf e ≤ n) :
    history.countP (isWriteOf (n + 1)) = 0 := by
  rw [List.countP_eq_zero]
  intro e he hwrite
  have hcall := h e he
  cases e with
  | wrote call bytes =>
    have : call = n + 1 := by simpa [isWriteOf] using hwrite
    simp only [callOf] at hcall
    omega
  | _ => simp [isWriteOf] at hwrite

end History

/-- A connection is open or its close callback has still to run. -/
def Busy (s : CommandObject) : Prop := Live s.channel ∨ s.duty = .closing

/-- The calling thread has cleared the flag and has not seen it set. -/
def Underway (phase : Phase) : Prop :=
  phase = .cleared ∨ phase = .started ∨ phase = .testing ∨ phase = .blocked

/-- The call cannot return before the flag is set again. -/
def Held (s : CommandObject) : Prop :=
  s.phase = .armed ∨ (Underway s.phase ∧ s.commandFinished = false)

/-- The invariant: a connection belongs to the call under way, which is held as
long as it lasts, and so is a call that has not opened one yet. -/
structure Kept (s : CommandObject) : Prop where
  once : WrittenOnce s.history
  quiet : QuietAfterReturn s.history
  recorded : ∀ e ∈ s.history, callOf e ≤ s.calls
  busy : Busy s → Held s ∧ .opened s.calls ∈ s.history
  unopened : .opened s.calls ∉ s.history → s.phase = .idle ∨ Held s
  exclusive : s.duty = .closing → ¬ Live s.channel
  unwritten : s.channel = some .connecting ∨ .opened s.calls ∉ s.history →
    s.history.countP (isWriteOf s.calls) = 0
  unreturned : s.phase ≠ .idle → .returned s.calls ∉ s.history

section Step
variable {s : CommandObject}

theorem kept_fresh (h : s.Fresh) : Kept s := by
  obtain ⟨-, -, hidle, hlive, -, hfree, hnil⟩ := h
  have hbusy : ¬ Busy s := by
    intro hb
    rcases hb with hl | hc
    · exact hlive hl
    · rw [hfree] at hc
      cases hc
  refine ⟨?_, ?_, ?_, fun hb => absurd hb hbusy, fun _ => .inl hidle, fun _ => hlive, ?_, ?_⟩
  · simp [WrittenOnce, hnil]
  · simp [QuietAfterReturn, hnil]
  · simp [hnil]
  · simp [hnil]
  · simp [hnil]

theorem held_ne (h : Held s) : s.phase ≠ .idle ∧ s.phase ≠ .passed := by
  constructor
  · intro hp
    simp [Held, Underway, hp] at h
  · intro hp
    simp [Held, Underway, hp] at h

/-- The invariant does not tell the phases of a call under way apart. -/
theorem kept_underway (h : Kept s) (hs : Underway s.phase) {phase : Phase}
    (hphase : Underway phase) : Kept { s with phase := phase } := by
  have hne : s.phase ≠ .idle ∧ s.phase ≠ .armed := by
    rcases hs with hp | hp | hp | hp <;> rw [hp] <;> decide
  have hheld : Held s → Held { s with phase := phase } := by
    intro hh
    exact .inr ⟨hphase, (hh.resolve_left hne.2).2⟩
  refine ⟨h.once, h.quiet, h.recorded, ?_, ?_, h.exclusive, h.unwritten, ?_⟩
  · intro hb
    exact ⟨hheld (h.busy hb).1, (h.busy hb).2⟩
  · intro ho
    exact .inr (hheld ((h.unopened ho).resolve_left hne.1))
  · intro _
    exact h.unreturned hne.1

/-- A start, on either thread, that opens at most the call's first connection. -/
theorem kept_connectTo (h : Kept s) (created : Bool)
    (hguard : Opens created s.channel → s.phase ≠ .idle ∧ .opened s.calls ∉ s.history) :
    Kept (s.connectTo created) := by
  unfold connectTo
  rw [startConnect_eq]
  by_cases hopens : Opens created s.channel
  · obtain ⟨hidle, hunopened⟩ := hguard hopens
    have hheld : Held s := (h.unopened hunopened).resolve_left hidle
    have hclosing : s.duty ≠ .closing := fun hc => hunopened (h.busy (.inr hc)).2
    simp only [hopens, if_true]
    refine ⟨writtenOnce_append h.once (by simp [isWriteOf]), quietAfterReturn_append h.quiet
      (by simp), recorded_append h.recorded rfl, ?_, ?_, fun hc => absurd hc hclosing, ?_, ?_⟩
    · intro _
      exact ⟨hheld, by simp⟩
    · intro ho
      exact absurd (by simp) ho
    · intro _
      rw [List.countP_append, h.unwritten (.inr hunopened)]
      simp [isWriteOf]
    · intro hp
      simpa using h.unreturned hp
  · simpa [hopens] using h

theorem kept_setCommand (h : Kept s) (hidle : s.phase = .idle) (c : WaitingCall) :
    Kept (s.next (.setCommand c)) := by
  have hfuture : ∀ e ∈ s.history, callOf e ≠ s.calls + 1 := by
    intro e he
    have := h.recorded e he
    omega
  refine ⟨h.once, h.quiet, ?_, ?_, ?_, h.exclusive, ?_, ?_⟩
  · intro e he
    exact Nat.le_succ_of_le (h.recorded e he)
  · intro hb
    exact absurd hidle (held_ne (h.busy hb).1).1
  · intro _
    exact .inr (.inl rfl)
  · intro _
    exact count_of_recorded h.recorded
  · intro _ hr
    exact hfuture _ hr rfl

theorem kept_clearFinished (h : Kept s) (harmed : s.phase = .armed) :
    Kept (s.next .clearFinished) := by
  have hheld : Held (s.next .clearFinished) := .inr ⟨.inl rfl, rfl⟩
  refine ⟨h.once, h.quiet, h.recorded, ?_, fun _ => .inr hheld, h.exclusive, h.unwritten, ?_⟩
  · intro hb
    exact ⟨hheld, (h.busy hb).2⟩
  · intro _
    apply h.unreturned
    rw [harmed]
    decide

theorem kept_test (h : Kept s) (htesting : s.phase = .testing) : Kept (s.next .test) := by
  have hs : Underway s.phase := .inr (.inr (.inl htesting))
  unfold next
  dsimp only
  cases hflag : s.commandFinished with
  | false =>
    rw [if_neg (by decide)]
    exact hflag ▸ kept_underway h hs (.inr (.inr (.inr rfl)))
  | true =>
    -- the flag is set, so nothing is left that would hold the call
    have hheld : ¬ Held s := by
      intro hh
      rcases hh with hp | ⟨-, hf⟩
      · rw [htesting] at hp
        cases hp
      · rw [hflag] at hf
        cases hf
    refine ⟨h.once, h.quiet, h.recorded, ?_, ?_, h.exclusive, h.unwritten, ?_⟩
    · intro hb
      exact absurd (h.busy hb).1 hheld
    · intro ho
      rcases h.unopened ho with hp | hh
      · rw [htesting] at hp
        cases hp
      · exact absurd hh hheld
    · intro _
      apply h.unreturned
      rw [htesting]
      decide

theorem kept_leave (h : Kept s) (hpassed : s.phase = .passed) : Kept (s.next .leave) := by
  have hbusy : ¬ Busy s := fun hb => (held_ne (h.busy hb).1).2 hpassed
  refine ⟨writtenOnce_append h.once (by simp [isWriteOf]),
    quietAfterReturn_append h.quiet (by simp), recorded_append h.recorded rfl,
    fun hb => absurd hb hbusy, fun _ => .inl rfl, h.exclusive, ?_, fun hne => absurd rfl hne⟩
  intro hor
  have hcount := h.unwritten (by simpa [next] using hor)
  simp only [next, List.countP_append, hcount]
  simp [isWriteOf]

/-- The connect event sends the frame of the call that opened the connection. -/
theorem kept_connect (h : Kept s) (hconnecting : s.channel = some .connecting) :
    Kept (s.next .connect) := by
  obtain ⟨hheld, hopened⟩ := h.busy (.inl (.inl hconnecting))
  have hcount := h.unwritten (.inl hconnecting)
  rw [next_connect]
  rcases Option.eq_none_or_eq_some s.current with hc | ⟨c, hc⟩
  · rw [onConnection_none (s := { s with channel := some .connected }) hc]
    refine ⟨h.once, h.quiet, h.recorded, fun _ => ⟨hheld, hopened⟩, fun _ => .inr hheld, ?_,
      fun _ => hcount, h.unreturned⟩
    intro hclosing
    cases hclosing
  · rw [onConnection_connected (s := { s with channel := some .connected }) hc rfl]
    refine ⟨?_, quietAfterReturn_append h.quiet (by simp), recorded_append h.recorded rfl, ?_,
      fun _ => .inr hheld, ?_, ?_, ?_⟩
    · apply writtenOnce_append h.once
      intro k hk
      obtain rfl : s.calls = k := by simpa [isWriteOf] using hk
      exact hcount
    · intro _
      exact ⟨hheld, List.mem_append_left _ hopened⟩
    · intro hclosing
      cases hclosing
    · intro hor
      rcases hor with hp | ho
      · cases hp
      · exact absurd (List.mem_append_left _ hopened) ho
    · intro hp
      simpa using h.unreturned hp

/-- A message reaches the callback of the call under way. -/
theorem kept_message (h : Kept s) (hconnected : s.channel = some .connected) (bytes : Bytes) :
    Kept (s.next (.message bytes)) := by
  have hbusy := h.busy (.inl (.inr hconnected))
  have hreturned := h.unreturned (held_ne hbusy.1).1
  rw [next_message, onMessage_eq]
  cases s.current.isSome with
  | false => simpa using h
  | true =>
    simp only [if_true]
    refine ⟨writtenOnce_append h.once (by simp [isWriteOf]), ?_, recorded_append h.recorded rfl,
      ?_, fun _ => .inr hbusy.1, h.exclusive, ?_, ?_⟩
    · apply quietAfterReturn_append h.quiet
      intro k m hk
      cases hk
      exact hreturned
    · intro _
      exact ⟨hbusy.1, List.mem_append_left _ hbusy.2⟩
    · intro hor
      rcases hor with hp | ho
      · rw [hconnected] at hp
        cases hp
      · exact absurd (List.mem_append_left _ hbusy.2) ho
    · intro hp
      simpa using h.unreturned hp

theorem kept_close (h : Kept s) (hlive : Live s.channel) : Kept (s.next .close) := by
  have hbusy := h.busy (.inl hlive)
  refine ⟨h.once, h.quiet, h.recorded, fun _ => hbusy, h.unopened, ?_, ?_, h.unreturned⟩
  · intro _ hl
    rcases hl with hl | hl <;> cases hl
  · intro hor
    rcases hor with hp | ho
    · cases hp
    · exact h.unwritten (.inr ho)

/-- The loop thread may lay down its duty at any time. -/
theorem kept_free (h : Kept s) : Kept { s with duty := .free } := by
  refine ⟨h.once, h.quiet, h.recorded, ?_, h.unopened, ?_, h.unwritten, h.unreturned⟩
  · intro hb
    rcases hb with hl | hd
    · exact h.busy (.inl hl)
    · cases hd
  · intro hd
    cases hd

/-- The close callback lets the call go: its connection is over, and no other has
been opened in the meantime. -/
theorem kept_closeCallback (h : Kept s) (hclosing : s.duty = .closing) :
    Kept (s.next .closeCallback) := by
  have hlive := h.exclusive hclosing
  have hopened := (h.busy (.inr hclosing)).2
  rw [next_closeCallback]
  cases hc : s.current with
  | none =>
    rw [onConnection_none hc]
    exact kept_free h
  | some c =>
    rw [onConnection_disconnected hc (isConnected_of_not_live hlive)]
    refine ⟨h.once, h.quiet, h.recorded, ?_, fun ho => absurd hopened ho, ?_, h.unwritten,
      h.unreturned⟩
    · intro hb
      rcases hb with hl | hd
      · exact absurd hl hlive
      · cases hd
    · intro hd
      cases hd

theorem kept_notifyAll (h : Kept s) : Kept (s.next .notifyAll) := by
  have hfree := kept_free h
  unfold next
  dsimp only
  split
  next hblocked =>
    exact kept_underway hfree (.inr (.inr (.inr hblocked))) (.inr (.inr (.inl rfl)))
  next => exact hfree

/-- One step of either thread. -/
theorem kept_next {a : Action} (henabled : s.Enabled a) (hguard : OpensOnce s a) (h : Kept s) :
    Kept (s.next a) := by
  cases a with
  | setCommand c => exact kept_setCommand h henabled c
  | clearFinished => exact kept_clearFinished h henabled
  | startConnect created =>
    have hphase : Underway (s.connectTo created).phase := .inl henabled
    exact kept_underway (kept_connectTo h created hguard) hphase (.inr (.inl rfl))
  | start =>
    have hkept : Kept { s with queued := s.queued + 1 } :=
      ⟨h.once, h.quiet, h.recorded, h.busy, h.unopened, h.exclusive, h.unwritten, h.unreturned⟩
    exact kept_underway hkept (.inr (.inl henabled)) (.inr (.inr (.inl rfl)))
  | test => exact kept_test h henabled
  | wakeSpuriously =>
    exact kept_underway h (.inr (.inr (.inr henabled))) (.inr (.inr (.inl rfl)))
  | leave => exact kept_leave h henabled
  | runQueued created =>
    have hkept := kept_connectTo h created hguard
    exact ⟨hkept.once, hkept.quiet, hkept.recorded, hkept.busy, hkept.unopened, hkept.exclusive,
      hkept.unwritten, hkept.unreturned⟩
  | connect => exact kept_connect h henabled.2
  | message bytes => exact kept_message h henabled.2 bytes
  | close => exact kept_close h henabled.2
  | closeCallback => exact kept_closeCallback h henabled
  | notifyAll => exact kept_notifyAll h

end Step

/-- **One connection per call is enough.** In every run from a fresh object in
which no start opens a second connection for a call or one between calls, every
state reached satisfies both: the frame of each call's `m_command` is written at
most once, and no message is dispatched to a call that has returned. -/
theorem one_connection_per_call {s t : CommandObject} (hfresh : s.Fresh)
    {actions : List Action} (hrun : Run system OpensOnce s actions t) :
    WrittenOnce t.history ∧ QuietAfterReturn t.history := by
  have h : Kept t :=
    hrun.invariant Kept (fun _ _ henabled hguard hs => kept_next henabled hguard hs)
      (kept_fresh hfresh)
  exact ⟨h.once, h.quiet⟩

/-- A call from its first step to its return; the queued start still waits. -/
def oneCall (c : WaitingCall) (reply : Bytes) : List Action :=
  [.setCommand c, .clearFinished, .startConnect true, .connect, .message reply, .close,
    .closeCallback, .notifyAll, .start, .test, .leave]

theorem one_connection_getState :
    ∃ t, Run system OpensOnce fresh
        (oneCall ⟨.hostSerial (.getState (ascii "d17cdac6")), trivial⟩ (ascii "OKAY0006device"))
        t ∧ WrittenOnce t.history ∧ QuietAfterReturn t.history := by
  have hrun : Run system OpensOnce fresh
      (oneCall ⟨.hostSerial (.getState (ascii "d17cdac6")), trivial⟩ (ascii "OKAY0006device"))
      _ := .of_check rfl
  exact ⟨_, hrun, one_connection_per_call fresh_fresh hrun⟩

/-- The start that was queued before the connection was over opens a second one
after the call has returned. -/
theorem second_connection :
    ∃ t, Run system (fun _ _ => True) fresh
        (oneCall ⟨.hostSerial (.getState (ascii "d17cdac6")), trivial⟩ (ascii "OKAY0006device")
          ++ [.runQueued true, .connect, .message (ascii "OKAY0006device")]) t ∧
      ¬ WrittenOnce t.history ∧ ¬ QuietAfterReturn t.history := by
  refine ⟨_, .of_check rfl, ?_, ?_⟩
  · intro h
    exact absurd (h 1) (by decide)
  · intro h
    exact List.pairwise_iff_forall_sublist.mp h
      (show List.Sublist [.returned 1, .dispatched 1 (ascii "OKAY0006device")] _ by decide)
      1 _ rfl rfl

end AdbClient.Guarantees.CallConnection
