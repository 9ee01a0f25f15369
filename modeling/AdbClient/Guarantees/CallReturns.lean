import AdbClient.Guarantees.WakeUp
import AdbClient.Support.Simulation

/-!
# Every call returns

A call and what the earlier ones left behind on the loop take a bounded number of
steps. Each start can open one connection, each connection closes once, and the
close wakes the calling thread once; only messages and spurious wake-ups come in
any number. Since some other step is always possible while a call is under way,
the call comes back however the two threads are scheduled. The end of a connection
is one of these steps: a server that never ends one keeps its call waiting.
-/
namespace AdbClient.Guarantees.CallReturns
open Source Support.Transition CommandObject WakeUp

/-- No other call begins. -/
def WithinCall (_ : CommandObject) : Action → Prop
  | .setCommand _ => False
  | _ => True

/-- The steps there are only so many of. -/
def spends : Action → Bool
  | .setCommand _ | .message _ | .wakeSpuriously => false
  | _ => true

def isSpurious : Action → Bool
  | .wakeSpuriously => true
  | _ => false

/-- The starts the calling thread has still to make. -/
def startsToMake : Phase → Nat
  | .armed | .cleared => 2
  | .started => 1
  | _ => 0

def phaseRank : Phase → Nat
  | .armed => 6
  | .cleared => 5
  | .started => 4
  | .testing => 3
  | .blocked => 2
  | .passed => 1
  | .idle => 0

/-- An open connection has its connected event, its close event, the close callback
and the notification in front of it. -/
def channelRank : Option ChannelStatus → Nat
  | some .connecting => 5
  | some .connected => 4
  | _ => 0

def dutyRank : Duty → Nat
  | .closing => 3
  | .notifying => 2
  | .free => 0

/-- What is left to do. A start weighs more than the connection it may open. -/
def remaining (s : CommandObject) : Nat :=
  6 * (s.queued + startsToMake s.phase) + channelRank s.channel + dutyRank s.duty +
    phaseRank s.phase

section Step
variable {s : CommandObject} {a : Action}

theorem channelRank_le (channel : Option ChannelStatus) : channelRank channel ≤ 5 := by
  unfold channelRank
  split <;> decide

theorem channelRank_pos {channel : Option ChannelStatus} (h : Live channel) :
    4 ≤ channelRank channel := by
  rcases h with rfl | rfl <;> decide

/-- The connection callback leaves less to do than the close event it follows. -/
theorem dutyRank_onConnection (s : CommandObject) : dutyRank s.onConnection.duty ≤ 2 := by
  unfold onConnection
  split
  · exact Nat.zero_le 2
  · dsimp only
    split <;> decide

theorem onConnection_frame (s : CommandObject) :
    s.onConnection.queued = s.queued ∧ s.onConnection.phase = s.phase ∧
      s.onConnection.channel = s.channel := by
  unfold onConnection
  split <;> exact ⟨rfl, rfl, rfl⟩

theorem onMessage_frame (s : CommandObject) (bytes : Bytes) :
    s.onMessage bytes = { s with history := (s.onMessage bytes).history } := by
  unfold onMessage
  split <;> rfl

/-- An established connection is answered on the spot. -/
theorem duty_onConnection_of_connected (h : isConnected s.channel = true) :
    s.onConnection.duty = .free := by
  cases hc : s.current with
  | none => rw [onConnection_none hc]
  | some c => rw [onConnection_connected hc h]

/-- A step that counts leaves less to do; a spurious wake-up leaves one more test. -/
theorem remaining_next (henabled : s.Enabled a) (hguard : WithinCall s a) :
    remaining (s.next a) + (spends a).toNat ≤ remaining s + (isSpurious a).toNat := by
  cases a with
  | setCommand c => exact hguard.elim
  | clearFinished =>
    have hp : s.phase = .armed := henabled
    simp [remaining, next, hp, startsToMake, phaseRank, spends, isSpurious]
  | startConnect created =>
    have hp : s.phase = .cleared := henabled
    have hchannel := channelRank_le (s.connectTo created).channel
    simp only [remaining, next, hp, startsToMake, phaseRank, spends, isSpurious, Bool.toNat_true,
      Bool.toNat_false]
    simp only [connectTo] at hchannel ⊢
    omega
  | start =>
    have hp : s.phase = .started := henabled
    simp only [remaining, next, hp, startsToMake, phaseRank, spends, isSpurious, Bool.toNat_true,
      Bool.toNat_false]
    omega
  | test =>
    have hp : s.phase = .testing := henabled
    simp only [remaining, next, hp, spends, isSpurious, Bool.toNat_true, Bool.toNat_false]
    split <;> simp only [startsToMake, phaseRank] <;> omega
  | wakeSpuriously =>
    have hp : s.phase = .blocked := henabled
    simp only [remaining, next, hp, startsToMake, phaseRank, spends, isSpurious, Bool.toNat_true,
      Bool.toNat_false]
    omega
  | leave =>
    have hp : s.phase = .passed := henabled
    simp [remaining, next, hp, startsToMake, phaseRank, spends, isSpurious]
  | runQueued created =>
    have hqueued := henabled.2
    have hchannel := channelRank_le (s.connectTo created).channel
    simp only [remaining, next, spends, isSpurious, Bool.toNat_true, Bool.toNat_false]
    simp only [connectTo] at hchannel ⊢
    omega
  | connect =>
    obtain ⟨hqueued, hphase, hchannel⟩ :=
      onConnection_frame { s with channel := some .connected }
    have hduty := duty_onConnection_of_connected (s := { s with channel := some .connected }) rfl
    rw [next_connect, remaining, hqueued, hphase, hchannel, hduty, remaining, henabled.1,
      henabled.2]
    simp only [channelRank, dutyRank, spends, isSpurious, Bool.toNat_true, Bool.toNat_false]
    omega
  | message bytes =>
    rw [next_message, onMessage_frame]
    exact Nat.le_refl _
  | close =>
    have hchannel := channelRank_pos henabled.2
    simp only [remaining, next, henabled.1, dutyRank, spends, isSpurious, Bool.toNat_true,
      Bool.toNat_false]
    simp only [channelRank] at hchannel ⊢
    omega
  | closeCallback =>
    have hd : s.duty = .closing := henabled
    obtain ⟨hqueued, hphase, hchannel⟩ := onConnection_frame s
    have hduty := dutyRank_onConnection s
    simp only [remaining, next_closeCallback, hqueued, hphase, hchannel, hd, spends, isSpurious,
      Bool.toNat_true, Bool.toNat_false]
    simp only [dutyRank] at hduty ⊢
    omega
  | notifyAll =>
    have hd : s.duty = .notifying := henabled
    simp only [remaining, next, hd, dutyRank, spends, isSpurious, Bool.toNat_true,
      Bool.toNat_false]
    split
    next hblocked =>
      simp only [hblocked, startsToMake, phaseRank]
      omega
    next => omega

/-- Until it is blocked the calling thread has a step of its own. -/
theorem exists_calling_step (hbegun : s.phase ≠ .idle) (hawake : s.phase ≠ .blocked) :
    ∃ a, ¬ OnLoop a ∧ s.Enabled a ∧ CreatesSockets s a ∧ WithinCall s a ∧ spends a = true := by
  cases hp : s.phase with
  | idle => exact absurd hp hbegun
  | blocked => exact absurd hp hawake
  | armed => exact ⟨.clearFinished, id, hp, trivial, trivial, rfl⟩
  | cleared => exact ⟨.startConnect true, id, hp, rfl, trivial, rfl⟩
  | started => exact ⟨.start, id, hp, trivial, trivial, rfl⟩
  | testing => exact ⟨.test, id, hp, trivial, trivial, rfl⟩
  | passed => exact ⟨.leave, id, hp, trivial, trivial, rfl⟩

/-- Then the loop has one that brings its waking nearer, other than a start. -/
theorem exists_waking_step (h : Wakeable s) (hblocked : s.phase = .blocked) :
    ∃ a, (∀ created, a ≠ .runQueued created) ∧ OnLoop a ∧ s.Enabled a ∧ CreatesSockets s a ∧
      WithinCall s a ∧ spends a = true := by
  cases hd : s.duty with
  | closing => exact ⟨.closeCallback, by simp, trivial, hd, trivial, trivial, rfl⟩
  | notifying => exact ⟨.notifyAll, by simp, trivial, hd, trivial, trivial, rfl⟩
  | free =>
    -- the flag is not set, or the thread would be about to be notified
    have hflag : s.commandFinished = false := by
      by_contra hset
      have := h.notified hblocked (by simpa using hset)
      rw [hd] at this
      cases this
    rcases h.pending (.inr (.inr hblocked)) hflag with hlive | hclosing
    · exact ⟨.close, by simp, trivial, ⟨hd, hlive⟩, trivial, trivial, rfl⟩
    · rw [hd] at hclosing
      cases hclosing

/-- While a call is under way some step that counts is possible. -/
theorem exists_step (h : Wakeable s) (hbegun : s.phase ≠ .idle) :
    ∃ a, s.Enabled a ∧ CreatesSockets s a ∧ WithinCall s a ∧ spends a = true := by
  by_cases hblocked : s.phase = .blocked
  · obtain ⟨a, -, -, hstep⟩ := exists_waking_step h hblocked
    exact ⟨a, hstep⟩
  · obtain ⟨a, -, hstep⟩ := exists_calling_step hbegun hblocked
    exact ⟨a, hstep⟩

end Step

section Runs
variable {s t u : CommandObject} {actions more : List Action}

/-- In a run without a new call the steps that count are bounded by what there was
to do and the spurious wake-ups. -/
theorem steps_le (hrun : Run system WithinCall t more u) :
    remaining u + more.countP spends ≤ remaining t + more.countP isSpurious := by
  have h := hrun.potential remaining spends isSpurious 1 (by
    intro s a henabled hguard
    rw [Nat.one_mul]
    exact remaining_next henabled hguard)
  rwa [Nat.one_mul] at h

theorem wakeable_run (hfresh : s.Fresh) (hrun : Run system CreatesSockets s actions t) :
    Wakeable t :=
  hrun.invariant Wakeable (fun _ _ henabled hguard hs => wakeable_next henabled hguard hs)
    (wakeable_of_idle hfresh.2.2.1)

/-- **Every call returns.** Take any state the two threads reach from a fresh object
while sockets can be created, with a call under way. However they go on without a
new call: the steps other than messages and spurious wake-ups are no more than
`remaining` and one for each spurious wake-up, and until the call has returned
there is always another one to take. So some schedule completes the call within
`remaining` steps, and no schedule puts it off for longer. -/
theorem call_returns (hfresh : s.Fresh) (hrun : Run system CreatesSockets s actions t) :
    (∀ more u, Run system (fun x a => CreatesSockets x a ∧ WithinCall x a) t more u →
      more.countP spends ≤ remaining t + more.countP isSpurious ∧
        (u.phase ≠ .idle → ∃ a, u.Enabled a ∧ CreatesSockets u a ∧ spends a = true)) ∧
      ∃ more u, Run system (fun x a => CreatesSockets x a ∧ WithinCall x a) t more u ∧
        u.phase = .idle ∧ more.length ≤ remaining t ∧ ∀ a ∈ more, spends a = true := by
  have hwakeable := wakeable_run hfresh hrun
  constructor
  · intro more u hmore
    have hle := steps_le (hmore.weaken fun _ _ hguard => hguard.2)
    refine ⟨by omega, ?_⟩
    intro hbegun
    have hu : Wakeable u :=
      hmore.invariant Wakeable
        (fun _ _ henabled hguard hs => wakeable_next henabled hguard.1 hs) hwakeable
    obtain ⟨a, henabled, hcreates, -, hspends⟩ := exists_step hu hbegun
    exact ⟨a, henabled, hcreates, hspends⟩
  · refine exists_run_to remaining Wakeable (fun u => u.phase = .idle) (fun a => spends a = true)
      ?_ hwakeable
    intro x hx hbegun
    obtain ⟨a, henabled, hcreates, hwithin, hspends⟩ := exists_step hx hbegun
    have hle := remaining_next henabled hwithin
    have hnot : isSpurious a = false := by
      cases a <;> first | rfl | cases hspends
    rw [hspends, hnot] at hle
    exact ⟨a, henabled, ⟨hcreates, hwithin⟩, hspends, wakeable_next henabled hcreates hx,
      Nat.lt_of_succ_le hle⟩

end Runs

theorem call_returns_getState :
    ∃ t, Run system CreatesSockets fresh untilBlocked t ∧ t.phase = .blocked ∧
      ∃ more u, Run system (fun x a => CreatesSockets x a ∧ WithinCall x a) t more u ∧
        u.phase = .idle ∧ more.length ≤ remaining t ∧ ∀ a ∈ more, spends a = true := by
  have hrun : Run system CreatesSockets fresh untilBlocked _ := .of_check rfl
  exact ⟨_, hrun, rfl, (call_returns fresh_fresh hrun).2⟩

end AdbClient.Guarantees.CallReturns
