import AdbClient.Guarantees.CallReturns
import AdbClient.Guarantees.Interleaving

/-!
# Calls whose starts are run in time

A second connection of a call is opened by its second start, which finds the first
one over. Where no connection ends before both starts of its call have been run, the
second start finds it open: each call has one connection, and nothing more has to be
asked of the two threads for their calls to be sequential.
-/
namespace AdbClient.Guarantees.TimelyStarts
open Source Abstract Support.Transition CommandObject CallConnection CallReturns Interleaving

/-- No connection ends while a start is still to be made or to be run. -/
def Timely (s : CommandObject) : Action → Prop
  | .close => s.queued = 0 ∧ startsToMake s.phase = 0
  | _ => True

instance (s : CommandObject) : (a : Action) → Decidable (Timely s a)
  | .close => inferInstanceAs (Decidable (_ ∧ _))
  | .setCommand _ | .clearFinished | .startConnect _ | .start | .test | .wakeSpuriously | .leave
  | .runQueued _ | .connect | .message _ | .closeCallback | .notifyAll => isTrue trivial

/-- The invariant: a call whose connection is over has no start left, and between
two calls there is none. -/
structure OnTime (s : CommandObject) : Prop where
  kept : Kept s
  between : s.phase = .idle → s.queued = 0
  finished : .opened s.calls ∈ s.history → ¬ Live s.channel →
    s.queued = 0 ∧ startsToMake s.phase = 0

section Step
variable {s : CommandObject} {a : Action}

theorem onTime_fresh (h : s.Fresh) : OnTime s := by
  refine ⟨kept_fresh h, fun _ => h.2.2.2.2.1, fun hopened => ?_⟩
  rw [h.2.2.2.2.2.2] at hopened
  cases hopened

/-- A waiter that is notified has made its starts. -/
theorem startsToMake_notified (phase : Phase) :
    startsToMake (if phase = .blocked then .testing else phase) = startsToMake phase := by
  cases phase <;> rfl

theorem not_live_of_opens {created : Bool} {channel : Option ChannelStatus}
    (h : Opens created channel) : ¬ Live channel := by
  rintro (rfl | rfl)
  all_goals
    rcases h with h | ⟨h, -⟩ <;> cases h

/-- A start that opens a connection is the first one of its call to do so. -/
theorem opensOnce_of_onTime (h : OnTime s) (henabled : s.Enabled a) : OpensOnce s a := by
  cases a with
  | startConnect created =>
    intro hopens
    have hphase : s.phase = .cleared := henabled
    refine ⟨by simp [hphase], fun hopened => ?_⟩
    have hnone := (h.finished hopened (not_live_of_opens hopens)).2
    rw [hphase] at hnone
    cases hnone
  | runQueued created =>
    intro hopens
    have hqueued : 0 < s.queued := henabled.2
    refine ⟨fun hidle => ?_, fun hopened => ?_⟩
    · have hnone := h.between hidle
      omega
    · have hnone := (h.finished hopened (not_live_of_opens hopens)).1
      omega
  | _ => trivial

/-- A call that passes has had its connection. -/
theorem queued_of_passed (h : OnTime s) (hpassed : s.phase = .passed) : s.queued = 0 := by
  have hheld : ¬ Held s := fun hh => (held_ne hh).2 hpassed
  have hopened : .opened s.calls ∈ s.history := by
    by_contra hunopened
    rcases h.kept.unopened hunopened with hidle | hh
    · rw [hpassed] at hidle
      cases hidle
    · exact hheld hh
  exact (h.finished hopened fun hlive => hheld (h.kept.busy (.inl hlive)).1).1

/-- The connection callback opens nothing. -/
theorem onConnection_opened (s : CommandObject) :
    s.onConnection.calls = s.calls ∧
      (.opened s.calls ∈ s.onConnection.history → .opened s.calls ∈ s.history) := by
  unfold onConnection
  split
  · exact ⟨rfl, id⟩
  · exact ⟨rfl, fun hmem => by simpa using hmem⟩

/-- A step that leaves the call, its connection and its starts alone. -/
theorem onTime_silent (h : OnTime s) {t : CommandObject} (hkept : Kept t)
    (hcalls : t.calls = s.calls) (hchannel : t.channel = s.channel)
    (hqueued : t.queued = s.queued) (hstarts : startsToMake t.phase = startsToMake s.phase)
    (hidle : t.phase = .idle → s.phase = .idle)
    (hopened : .opened s.calls ∈ t.history → .opened s.calls ∈ s.history) : OnTime t := by
  refine ⟨hkept, fun hp => hqueued.trans (h.between (hidle hp)), ?_⟩
  intro hmem hnot
  rw [hcalls] at hmem
  rw [hchannel] at hnot
  rw [hqueued, hstarts]
  exact h.finished (hopened hmem) hnot

/-- The first start opens the connection, or the socket cannot be created. -/
theorem onTime_startConnect (h : OnTime s) (hcleared : s.phase = .cleared) {created : Bool}
    (hkept : Kept (s.next (.startConnect created))) :
    OnTime (s.next (.startConnect created)) := by
  refine ⟨hkept, fun hp => by simp [next] at hp, ?_⟩
  by_cases hopens : Opens created s.channel
  · intro _ hnot
    simp only [next, connectTo_opens hopens] at hnot
    exact absurd (.inl rfl) hnot
  · simp only [next, connectTo_not_opens hopens]
    intro hmem hnot
    have hnone := (h.finished hmem hnot).2
    rw [hcleared] at hnone
    cases hnone

/-- A queued start opens a connection, or there is one less of them. -/
theorem onTime_runQueued (h : OnTime s) {created : Bool}
    (hkept : Kept (s.next (.runQueued created))) : OnTime (s.next (.runQueued created)) := by
  by_cases hopens : Opens created s.channel
  · refine ⟨hkept, ?_, ?_⟩
    · intro hp
      have hnone := h.between hp
      simp only [next, hnone]
    · intro _ hnot
      simp only [next, connectTo_opens hopens] at hnot
      exact absurd (.inl rfl) hnot
  · refine ⟨hkept, ?_, ?_⟩
    · intro hp
      have hnone := h.between hp
      simp only [next, hnone]
    · simp only [next, connectTo_not_opens hopens]
      intro hmem hnot
      obtain ⟨hqueued, hstarts⟩ := h.finished hmem hnot
      exact ⟨by rw [hqueued], hstarts⟩

/-- One step of either thread. -/
theorem onTime_next (h : OnTime s) (henabled : s.Enabled a) (htimely : Timely s a) :
    OnTime (s.next a) := by
  have hkept := kept_next henabled (opensOnce_of_onTime h henabled) h.kept
  cases a with
  | setCommand c =>
    have hnew : .opened (s.calls + 1) ∉ s.history := by
      intro hmem
      exact Nat.not_succ_le_self _ (h.kept.recorded _ hmem)
    exact ⟨hkept, fun hp => by simp [next] at hp, fun hmem => absurd hmem hnew⟩
  | clearFinished =>
    have harmed : s.phase = .armed := henabled
    exact onTime_silent h hkept rfl rfl rfl (by rw [harmed]; rfl)
      (fun hp => by simp [next] at hp) id
  | startConnect created => exact onTime_startConnect h henabled hkept
  | start =>
    have hstarted : s.phase = .started := henabled
    refine ⟨hkept, fun hp => by simp [next] at hp, fun hmem hnot => ?_⟩
    have hnone := (h.finished hmem hnot).2
    rw [hstarted] at hnone
    cases hnone
  | test =>
    have htesting : s.phase = .testing := henabled
    refine onTime_silent h hkept rfl rfl rfl ?_ ?_ id
    · simp only [next, htesting]
      split <;> rfl
    · simp only [next]
      split <;> intro hp <;> cases hp
  | wakeSpuriously =>
    have hblocked : s.phase = .blocked := henabled
    exact onTime_silent h hkept rfl rfl rfl (by rw [hblocked]; rfl)
      (fun hp => by simp [next] at hp) id
  | leave =>
    have hpassed : s.phase = .passed := henabled
    have hqueued := queued_of_passed h hpassed
    exact ⟨hkept, fun _ => hqueued, fun _ _ => ⟨hqueued, rfl⟩⟩
  | runQueued created => exact onTime_runQueued h hkept
  | connect =>
    obtain ⟨hqueued, hphase, hchannel⟩ :=
      onConnection_frame { s with channel := some .connected }
    rw [next_connect] at hkept ⊢
    refine ⟨hkept, fun hp => ?_, fun _ hnot => ?_⟩
    · rw [hqueued]
      exact h.between (hphase ▸ hp)
    · rw [hchannel] at hnot
      exact absurd (.inr rfl) hnot
  | message bytes =>
    rw [next_message, onMessage_eq] at hkept ⊢
    refine onTime_silent h hkept rfl rfl rfl rfl id ?_
    split <;> simp
  | close => exact ⟨hkept, h.between, fun _ _ => htimely⟩
  | closeCallback =>
    obtain ⟨hqueued, hphase, hchannel⟩ := onConnection_frame s
    obtain ⟨hcalls, hopened⟩ := onConnection_opened s
    rw [next_closeCallback] at hkept ⊢
    exact onTime_silent h hkept hcalls hchannel hqueued (by rw [hphase]) (fun hp => hphase ▸ hp)
      hopened
  | notifyAll =>
    refine onTime_silent h hkept rfl rfl rfl (startsToMake_notified s.phase) ?_ id
    simp only [next]
    split
    · intro hp
      cases hp
    · exact id

/-- The callbacks do not touch the object's threads. -/
theorem object_next (x : Execution) (m : Move) :
    (x.next m).object = x.object.next m.action := by
  obtain ⟨action, output, version⟩ := m
  cases action <;> rfl

end Step
section Reopened
variable {s t u : CommandObject} {actions : List Action}

/-- `u` is `t` with its connection over and the loop free again. -/
structure EndedFrom (t u : CommandObject) : Prop where
  calls : u.calls = t.calls
  history : u.history = t.history
  free : u.duty = .free
  channel : u.channel = some .closed
  queued : u.queued = t.queued
  starts : startsToMake u.phase = startsToMake t.phase

/-- The loop sees the end of a connection through by itself. -/
theorem exists_endedFrom (t : CommandObject) :
    ∃ more u, Run system (fun _ _ => True) (t.next .close) more u ∧ EndedFrom t u := by
  have hclosing : (t.next .close).Enabled .closeCallback := rfl
  cases hc : t.current with
  | none =>
    refine ⟨[.closeCallback], _, .single hclosing trivial, ?_⟩
    change EndedFrom t (onConnection (t.next .close))
    rw [onConnection_none (s := t.next .close) hc]
    exact ⟨rfl, rfl, rfl, rfl, rfl, rfl⟩
  | some c =>
    have hcallback := onConnection_disconnected (s := t.next .close) hc rfl
    have hnotifying : ((t.next .close).next .closeCallback).Enabled .notifyAll := by
      rw [next_closeCallback, hcallback]
      rfl
    refine ⟨[.closeCallback, .notifyAll], _,
      .cons hclosing trivial (.single hnotifying trivial), ?_⟩
    change EndedFrom t (((t.next .close).next .closeCallback).next .notifyAll)
    rw [next_closeCallback, hcallback]
    exact ⟨rfl, rfl, rfl, rfl, rfl, startsToMake_notified t.phase⟩

/-- A start that is left opens a connection when the last one is over. -/
theorem exists_reopened (hfree : u.duty = .free) (hchannel : u.channel = some .closed)
    (hstart : u.queued ≠ 0 ∨ startsToMake u.phase ≠ 0) :
    ∃ more v, Run system (fun _ _ => True) u more v ∧ v.calls = u.calls ∧
      v.history = u.history ++ [.opened u.calls] := by
  have hopens : Opens true u.channel := .inr ⟨by rw [hchannel]; decide, rfl⟩
  by_cases hqueued : 0 < u.queued
  · refine ⟨[.runQueued true], _, .single ⟨hfree, hqueued⟩ trivial, rfl, ?_⟩
    change (u.connectTo true).history = _
    rw [connectTo_opens hopens]
  · have hstarts := hstart.resolve_left (by omega)
    cases hp : u.phase with
    | armed =>
      refine ⟨[.clearFinished, .startConnect true], _,
        .cons hp trivial (.single rfl trivial), rfl, ?_⟩
      change ((u.next .clearFinished).connectTo true).history = _
      rw [connectTo_opens (s := u.next .clearFinished) hopens]
      rfl
    | cleared =>
      refine ⟨[.startConnect true], _, .single hp trivial, rfl, ?_⟩
      change (u.connectTo true).history = _
      rw [connectTo_opens hopens]
    | started =>
      refine ⟨[.start, .runQueued true], _,
        .cons hp trivial (.single ⟨hfree, Nat.succ_pos _⟩ trivial), rfl, ?_⟩
      change ((u.next .start).connectTo true).history = _
      rw [connectTo_opens (s := u.next .start) hopens]
      rfl
    | testing | blocked | passed | idle =>
      rw [hp] at hstarts
      exact absurd rfl hstarts

theorem onTime_run (hfresh : s.Fresh) (hrun : Run system Timely s actions t) : OnTime t :=
  hrun.invariant OnTime (fun _ _ henabled hguard hs => onTime_next hs henabled hguard)
    (onTime_fresh hfresh)

/-- **An untimely end costs a second connection.** In every state the two threads reach
from a fresh object by timely steps: when a connection can end with a start of its
call still to be made or to be run, the threads can go on from that end so that the
same call opens another connection. -/
theorem untimely_end_reopens (hfresh : s.Fresh) (hrun : Run system Timely s actions t)
    (hend : t.Enabled .close) (huntimely : ¬ Timely t .close) :
    ∃ more u, Run system (fun _ _ => True) t (.close :: more) u ∧ u.calls = t.calls ∧
      1 < u.history.count (.opened t.calls) := by
  obtain ⟨ending, u, hending, hended⟩ := exists_endedFrom t
  have hstart : u.queued ≠ 0 ∨ startsToMake u.phase ≠ 0 := by
    rw [hended.queued, hended.starts]
    by_contra hnone
    exact huntimely (by simpa [Timely] using hnone)
  obtain ⟨starting, v, hstarting, hcalls, hhistory⟩ :=
    exists_reopened hended.free hended.channel hstart
  refine ⟨ending ++ starting, v, .cons hend trivial (hending.append hstarting),
    hcalls.trans hended.calls, ?_⟩
  have hopened : .opened t.calls ∈ t.history :=
    ((onTime_run hfresh hrun).kept.busy (.inl hend.2)).2
  have hcount := List.count_pos_iff.mpr hopened
  rw [hhistory, hended.calls, hended.history, List.count_append, List.count_singleton_self]
  omega

end Reopened

theorem untimely_end_reopens_getState :
    ∃ t u more, Run system Timely fresh
        [.setCommand ⟨.hostSerial (.getState (ascii "d17cdac6")), trivial⟩, .clearFinished,
          .startConnect true, .start] t ∧
      Run system (fun _ _ => True) t (.close :: more) u ∧ u.calls = 1 ∧
      1 < u.history.count (.opened 1) := by
  have hrun : Run system Timely fresh
      [.setCommand ⟨.hostSerial (.getState (ascii "d17cdac6")), trivial⟩, .clearFinished,
        .startConnect true, .start] _ := .of_check rfl
  obtain ⟨more, u, hmore, hcalls, hcount⟩ :=
    untimely_end_reopens fresh_fresh hrun (by decide) (by decide)
  exact ⟨_, u, more, hrun, hmore, hcalls, hcount⟩

/-- Every end is timely, and every message leaves room in the read buffer. -/
def TimelyMove (N : Nat) (x : Execution) (m : Move) : Prop :=
  Timely x.object m.action ∧ LeavesRoom N m.action

instance (N : Nat) (x : Execution) (m : Move) : Decidable (TimelyMove N x m) :=
  inferInstanceAs (Decidable (_ ∧ _))

section Runs
variable {N : Nat} {x y : Execution} {o : Members} {moves : List Move}

/-- A timely run is a run of the sequential object, and stays on time. -/
theorem timely_represents (hN : 8 < N) (hfresh : x.Fresh N o)
    (hrun : Run Execution.system (TimelyMove N) x moves y) :
    ∃ o', Run (sequential N) (fun _ _ => True) o (trace Execution.system returns x moves) o' ∧
      OnTime y.object ∧ Represents N y o' := by
  have hobject : x.object.Fresh := hfresh.1
  exact hrun.simulate (fun x o => OnTime x.object ∧ Represents N x o)
    (fun x m o hR henabled hguard => by
      have hopens := opensOnce_of_onTime hR.1 henabled.1
      obtain ⟨o', hcalls, hafter⟩ := represents_next hN hR.2 henabled ⟨hopens, hguard.2⟩
      have hontime := onTime_next hR.1 henabled.1 hguard.1
      exact ⟨o', hcalls, (object_next x m).symm ▸ hontime, hafter⟩)
    ⟨onTime_fresh hobject, represents_fresh hfresh⟩

/-- **Calls whose connections end in time are sequential calls.** In every
interleaving of the two threads in which no connection ends while a start is still to
be made or to be run, and every message leaves room in the read buffer: the calls that
return are in their order a run of the sequential object, and between two calls the
members are the ones that run ends with. -/
theorem timely_calls_sequential (hN : 8 < N) (hfresh : x.Fresh N o)
    (hrun : Run Execution.system (TimelyMove N) x moves y) :
    ∃ o', Run (sequential N) (fun _ _ => True) o (trace Execution.system returns x moves) o' ∧
      (y.object.phase = .idle → y.session.state.members = o') := by
  obtain ⟨o', hsequential, -, hrepresents⟩ := timely_represents hN hfresh hrun
  exact ⟨o', hsequential, hrepresents.between⟩

end Runs

theorem timely_calls_sequential_getState :
    ∃ y o', Run Execution.system (TimelyMove 16) (Execution.fresh 16) twoTurns y ∧
      Run (sequential 16) (fun _ _ => True) Members.new
        (trace Execution.system returns (Execution.fresh 16) twoTurns) o' ∧
      y.session.state.members = o' ∧ o'.error = ascii "closed" := by
  have hrun : Run Execution.system (TimelyMove 16) (Execution.fresh 16) twoTurns _ :=
    .of_check rfl
  obtain ⟨o', hsequential, hmembers⟩ :=
    timely_calls_sequential (by decide) (Execution.fresh_fresh 16) hrun
  exact ⟨_, o', hrun, hsequential, hmembers rfl, by rw [← hmembers rfl]; rfl⟩

end AdbClient.Guarantees.TimelyStarts
