import AdbClient.Source.CommandLoop

/-!
# A blocked call is always woken

The flag is cleared outside the mutex, the connection is started by two threads,
and the close callback tests whichever channel is current. None of it loses a
wake-up: a call clears the flag before it starts the connection, so from then on
the flag is either set again or there is still a connection whose close callback
will set it.
-/
namespace AdbClient.Guarantees.WakeUp
open Source Support.Transition CommandObject

/-- Every call of `createsocket` succeeds. -/
def CreatesSockets (_ : CommandObject) : Action → Prop
  | .startConnect created | .runQueued created => created = true
  | _ => True

instance (s : CommandObject) : (a : Action) → Decidable (CreatesSockets s a)
  | .startConnect created | .runQueued created => inferInstanceAs (Decidable (created = true))
  | .setCommand _ | .clearFinished | .start | .test | .wakeSpuriously | .leave | .connect
  | .message _ | .close | .closeCallback | .notifyAll => isTrue trivial

/-- The calling thread has started the connection and has not seen the flag. -/
def Waiting (phase : Phase) : Prop := phase = .started ∨ phase = .testing ∨ phase = .blocked

instance (phase : Phase) : Decidable (Waiting phase) :=
  inferInstanceAs (Decidable (_ ∨ _ ∨ _))

/-- The invariant: a call that waits for the flag has a connection left to set
it, and one that sleeps although the flag is set is about to be notified. -/
structure Wakeable (s : CommandObject) : Prop where
  begun : s.phase ≠ .idle → s.current ≠ none
  pending : Waiting s.phase → s.commandFinished = false → Live s.channel ∨ s.duty = .closing
  notified : s.phase = .blocked → s.commandFinished = true → s.duty = .notifying

section Step
variable {s : CommandObject}

/-- Between two calls nobody waits. -/
theorem wakeable_of_idle (hidle : s.phase = .idle) : Wakeable s := by
  constructor
  · intro hne
    exact absurd hidle hne
  · intro hwaiting
    rw [hidle] at hwaiting
    exact absurd hwaiting (by decide)
  · intro hblocked
    rw [hidle] at hblocked
    cases hblocked

/-- Starting a connection, on either thread, leaves one. -/
theorem live_connectTo (s : CommandObject) : Live (s.connectTo true).channel :=
  live_startConnect s.channel

/-- The connection callback sets the flag or has a connection in front of it. -/
theorem wakeable_onConnection (h : Wakeable s) (hduty : s.duty ≠ .notifying) :
    Wakeable s.onConnection := by
  cases hc : s.current with
  | none =>
    have hidle : s.phase = .idle := by
      by_contra hne
      exact h.begun hne hc
    rw [onConnection_none hc]
    exact wakeable_of_idle hidle
  | some c =>
    cases hconnected : isConnected s.channel with
    | true =>
      rw [onConnection_connected hc hconnected]
      refine ⟨h.begun, ?_, ?_⟩
      · intro _ _
        left
        by_contra hlive
        rw [isConnected_of_not_live hlive] at hconnected
        cases hconnected
      · intro hp hflag
        exact absurd (h.notified hp hflag) hduty
    | false =>
      rw [onConnection_disconnected hc hconnected]
      refine ⟨h.begun, ?_, ?_⟩
      · intro _ hflag
        cases hflag
      · intro _ _
        rfl

/-- One step of either thread. -/
theorem wakeable_next {a : Action} (henabled : s.Enabled a) (hguard : CreatesSockets s a)
    (h : Wakeable s) : Wakeable (s.next a) := by
  cases a with
  | setCommand c =>
    exact ⟨by simp [next], fun hw => absurd hw (by simp [next, Waiting]), by simp [next]⟩
  | clearFinished =>
    have hbegun : s.current ≠ none := h.begun (by rw [henabled]; decide)
    exact ⟨fun _ => hbegun, fun hw => absurd hw (by simp [next, Waiting]), by simp [next]⟩
  | startConnect created =>
    obtain rfl : created = true := hguard
    have hbegun : s.current ≠ none := h.begun (by rw [henabled]; decide)
    exact ⟨fun _ => hbegun, fun _ _ => .inl (live_connectTo s), by simp [next]⟩
  | start =>
    have hp : s.phase = .started := henabled
    have hbegun : s.current ≠ none := h.begun (by rw [hp]; decide)
    exact ⟨fun _ => hbegun, fun _ hflag => h.pending (.inl hp) hflag, by simp [next]⟩
  | test =>
    have hp : s.phase = .testing := henabled
    have hbegun : s.current ≠ none := h.begun (by rw [hp]; decide)
    refine ⟨fun _ => hbegun, fun _ hflag => h.pending (.inr (.inl hp)) hflag, ?_⟩
    intro hblocked hflag
    simp only [next] at hblocked hflag
    rw [hflag] at hblocked
    cases hblocked
  | wakeSpuriously =>
    have hp : s.phase = .blocked := henabled
    have hbegun : s.current ≠ none := h.begun (by rw [hp]; decide)
    exact ⟨fun _ => hbegun, fun _ hflag => h.pending (.inr (.inr hp)) hflag, by simp [next]⟩
  | leave => exact wakeable_of_idle rfl
  | runQueued created =>
    obtain rfl : created = true := hguard
    exact ⟨h.begun, fun _ _ => .inl (live_connectTo s), h.notified⟩
  | connect =>
    have hfree : s.duty = .free := henabled.1
    apply wakeable_onConnection _ (by rw [hfree]; decide)
    exact ⟨h.begun, fun _ _ => .inl (.inr rfl), h.notified⟩
  | message bytes =>
    rw [next_message, onMessage_eq]
    exact ⟨h.begun, h.pending, h.notified⟩
  | close =>
    have hfree : s.duty = .free := henabled.1
    refine ⟨h.begun, fun _ _ => .inr rfl, ?_⟩
    intro hp hflag
    have := h.notified hp hflag
    rw [hfree] at this
    cases this
  | closeCallback =>
    have hclosing : s.duty = .closing := henabled
    exact wakeable_onConnection h (by rw [hclosing]; decide)
  | notifyAll =>
    have hduty : s.duty = .notifying := henabled
    have hphase : Waiting (s.next .notifyAll).phase → Waiting s.phase := by
      unfold Waiting next
      dsimp only
      split
      next hp => exact fun _ => .inr (.inr hp)
      next hp => exact id
    refine ⟨?_, ?_, ?_⟩
    · intro hne
      apply h.begun
      intro hidle
      exact hne (by simp [next, hidle])
    · intro hp hflag
      rcases h.pending (hphase hp) hflag with hlive | hclosing
      · exact .inl hlive
      · rw [hduty] at hclosing
        cases hclosing
    · intro hp
      simp only [next] at hp
      split at hp
      · cases hp
      next hne => exact absurd hp hne

end Step

/-- The loop thread is not done: a connection is open, a close callback has not
finished, or a start is queued. -/
def LoopPending (s : CommandObject) : Prop :=
  Live s.channel ∨ s.duty ≠ .free ∨ 0 < s.queued

/-- Then the loop thread has a step to take. -/
theorem exists_loop_step {s : CommandObject} (h : LoopPending s) :
    ∃ a, OnLoop a ∧ s.Enabled a := by
  cases hduty : s.duty with
  | closing => exact ⟨.closeCallback, trivial, hduty⟩
  | notifying => exact ⟨.notifyAll, trivial, hduty⟩
  | free =>
    rcases h with hlive | hbusy | hqueued
    · exact ⟨.close, trivial, hduty, hlive⟩
    · exact absurd hduty hbusy
    · exact ⟨.runQueued true, trivial, hduty, hqueued⟩

/-- **No wake-up is lost.** In every state any interleaving reaches from a fresh
object, as long as sockets can be created: a calling thread that is blocked while
the flag is not set has something left on the loop to set it, and the loop thread a
step to take; one that is blocked although the flag is set is about to be notified. -/
theorem blocked_is_woken {s t : CommandObject} (hfresh : s.Fresh) {actions : List Action}
    (hrun : Run system CreatesSockets s actions t) (hblocked : t.phase = .blocked) :
    (t.commandFinished = false → LoopPending t ∧ ∃ a, OnLoop a ∧ t.Enabled a) ∧
      (t.commandFinished = true → t.duty = .notifying) := by
  have h : Wakeable t :=
    hrun.invariant Wakeable (fun _ _ henabled hguard hs => wakeable_next henabled hguard hs)
      (wakeable_of_idle hfresh.2.2.1)
  refine ⟨?_, h.notified hblocked⟩
  intro hflag
  have hpending : LoopPending t := by
    rcases h.pending (.inr (.inr hblocked)) hflag with hlive | hclosing
    · exact .inl hlive
    · refine .inr (.inl ?_)
      rw [hclosing]
      decide
  exact ⟨hpending, exists_loop_step hpending⟩

/-- A call up to the point where it blocks. -/
def untilBlocked : List Action :=
  [.setCommand ⟨.hostSerial (.getState (ascii "d17cdac6")), trivial⟩, .clearFinished,
    .startConnect true, .start, .test]

theorem blocked_is_woken_getState :
    ∃ t, Run system CreatesSockets fresh untilBlocked t ∧ t.phase = .blocked ∧ LoopPending t := by
  have hrun : Run system CreatesSockets fresh untilBlocked _ := .of_check rfl
  exact ⟨_, hrun, rfl, ((blocked_is_woken fresh_fresh hrun rfl).1 rfl).1⟩

end AdbClient.Guarantees.WakeUp
