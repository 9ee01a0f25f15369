import AdbClient.Guarantees.CallbackFailures
import AdbClient.Guarantees.TimelyStarts

/-!
# Timely calls come to an end

Waiting for the starts before a connection ends costs nothing: a call under way can
always be brought to its end by timely steps, as many as were left to it without. Then
every call that began has returned once, and they have returned as the sequential
object would have it.
-/
namespace AdbClient.Guarantees.TimelyCalls
open Source Abstract Support.Transition CommandObject WakeUp CallReturns Interleaving TimelyStarts

/-- A timely step while sockets can be created. -/
def Working (N : Nat) (x : Execution) (m : Move) : Prop :=
  TimelyMove N x m ∧ CreatesSockets x.object m.action

instance (N : Nat) (x : Execution) (m : Move) : Decidable (Working N x m) :=
  inferInstanceAs (Decidable (_ ∧ _))

/-- The call that has begun and not returned. -/
def unreturned (s : CommandObject) : Nat := if s.phase = .idle then 0 else 1

section Step
variable {N : Nat} {s : CommandObject} {x : Execution} {m : Move}

/-- While a call is under way some timely step that counts is possible. -/
theorem exists_timely_step (h : Wakeable s) (hbegun : s.phase ≠ .idle) :
    ∃ a, s.Enabled a ∧ CreatesSockets s a ∧ WithinCall s a ∧ Timely s a ∧ spends a = true := by
  by_cases hblocked : s.phase = .blocked
  · by_cases hstart : s.duty = .free ∧ 0 < s.queued
    · exact ⟨.runQueued true, hstart, rfl, trivial, trivial, rfl⟩
    · obtain ⟨a, -, -, henabled, hcreates, hwithin, hspends⟩ := exists_waking_step h hblocked
      refine ⟨a, henabled, hcreates, hwithin, ?_, hspends⟩
      cases a with
      | close =>
        -- the loop is free, so no start is queued
        have hnone : ¬ 0 < s.queued := fun hqueued => hstart ⟨henabled.1, hqueued⟩
        exact ⟨by omega, by rw [hblocked]; rfl⟩
      | _ => trivial
  · obtain ⟨a, hcalling, henabled, hcreates, hwithin, hspends⟩ :=
      exists_calling_step hbegun hblocked
    refine ⟨a, henabled, hcreates, hwithin, ?_, hspends⟩
    cases a with
    | close => exact absurd trivial hcalling
    | _ => trivial

/-- A step other than a message is not kept from running by its callback. -/
theorem handle_isOk_of_spends {a : Action} (h : spends a = true) : (x.handle a).isOk := by
  cases a with
  | message bytes => cases h
  | connect | closeCallback =>
    unfold Execution.handle
    cases x.object.current with
    | none => rfl
    | some c => exact CallbackFailures.step_connection_isOk _
  | _ => rfl

theorem leavesRoom_of_spends {a : Action} (h : spends a = true) : LeavesRoom N a := by
  cases a with
  | message bytes => cases h
  | _ => trivial

/-- Only a new call changes their number. -/
theorem calls_next {a : Action} (hwithin : WithinCall s a) : (s.next a).calls = s.calls := by
  cases a with
  | setCommand c => exact hwithin.elim
  | connect => exact (onConnection_opened { s with channel := some .connected }).1
  | closeCallback => exact (onConnection_opened s).1
  | message bytes => rw [next_message, onMessage_eq]
  | _ => rfl

theorem idle_next {a : Action} (henabled : s.Enabled a) (hwithin : WithinCall s a)
    (hleave : a ≠ .leave) : (s.next a).phase = .idle ↔ s.phase = .idle := by
  cases a with
  | setCommand c => exact hwithin.elim
  | leave => exact absurd rfl hleave
  | connect =>
    rw [next_connect, (onConnection_frame { s with channel := some .connected }).2.1]
  | closeCallback => rw [next_closeCallback, (onConnection_frame s).2.1]
  | message bytes => rw [next_message, onMessage_eq]
  | runQueued created | close => rfl
  | notifyAll =>
    simp only [next]
    split
    next hblocked => simp [hblocked]
    next => rfl
  | test =>
    have htesting : s.phase = .testing := henabled
    simp only [next, htesting]
    split <;> decide
  | clearFinished | startConnect created | start | wakeSpuriously =>
    have hphase : s.phase ≠ .idle := by
      intro hidle
      simp [Enabled, hidle] at henabled
    simp [next, hphase]

/-- A call is counted from its beginning, and shown when it returns. -/
theorem counted_next (h : Wakeable x.object) (henabled : x.Enabled m) :
    (returns x m).length + unreturned (x.next m).object + x.object.calls =
      unreturned x.object + (x.next m).object.calls := by
  obtain ⟨action, output, version⟩ := m
  rw [object_next]
  cases action with
  | setCommand c =>
    have hidle : x.object.phase = .idle := henabled.1
    simp only [returns, unreturned, next, hidle]
    simp [Nat.add_comm]
  | leave =>
    have hpassed : x.object.phase = .passed := henabled.1
    obtain ⟨c, hc⟩ := Option.ne_none_iff_exists'.mp (h.begun (by rw [hpassed]; decide))
    simp [returns, unreturned, next, hpassed, hc]
  | _ =>
    rw [calls_next (by trivial), unreturned, unreturned,
      if_congr (idle_next henabled.1 (by trivial) (by simp)) rfl rfl, returns]
    simp

end Step
section Runs
variable {N : Nat} {x y : Execution} {o : Members} {moves : List Move}

theorem working_wakeable (hfresh : x.Fresh N o)
    (hrun : Run Execution.system (Working N) x moves y) : Wakeable y.object := by
  have hobject : x.object.Fresh := hfresh.1
  refine hrun.invariant (fun x => Wakeable x.object) (fun x m henabled hguard hx => ?_)
    (wakeable_of_idle hobject.2.2.1)
  change Wakeable (x.next m).object
  rw [object_next]
  exact wakeable_next henabled.1 hguard.2 hx

/-- Every call that has begun has returned once, except for the one under way. -/
theorem returns_count (hfresh : x.Fresh N o)
    (hrun : Run Execution.system (Working N) x moves y) :
    (trace Execution.system returns x moves).length + unreturned y.object = y.object.calls := by
  have hobject : x.object.Fresh := hfresh.1
  have hstep : ∀ shown x m, Execution.system.Enabled x m → Working N x m →
      Wakeable x.object ∧ shown.length + unreturned x.object = x.object.calls →
      Wakeable (x.next m).object ∧
        (shown ++ returns x m).length + unreturned (x.next m).object = (x.next m).object.calls := by
    rintro shown x m henabled hguard ⟨hwakeable, hcount⟩
    have hcounted := counted_next hwakeable henabled
    refine ⟨?_, ?_⟩
    · rw [object_next]
      exact wakeable_next henabled.1 hguard.2 hwakeable
    · rw [List.length_append]
      omega
  have hstart : unreturned x.object = x.object.calls := by
    rw [unreturned, if_pos hobject.2.2.1, hobject.1]
  have h : Wakeable y.object ∧
      ([] ++ trace Execution.system returns x moves).length + unreturned y.object =
        y.object.calls :=
    hrun.accumulate
      (fun shown x => Wakeable x.object ∧ shown.length + unreturned x.object = x.object.calls)
      hstep ⟨wakeable_of_idle hobject.2.2.1, by simpa using hstart⟩
  simpa using h.2

/-- One step nearer to the end of the call under way. -/
theorem exists_working_step (hwakeable : Wakeable x.object) (hbegun : x.object.phase ≠ .idle) :
    ∃ m, x.Enabled m ∧ (Working N x m ∧ WithinCall x.object m.action) ∧
      spends m.action = true ∧ Wakeable (x.next m).object ∧
      remaining (x.next m).object < remaining x.object := by
  obtain ⟨a, henabled, hcreates, hwithin, htimely, hspends⟩ :=
    exists_timely_step hwakeable hbegun
  have hless := remaining_next henabled hwithin
  have hnot : isSpurious a = false := by
    cases a <;> first | rfl | cases hspends
  rw [hspends, hnot] at hless
  refine ⟨⟨a, [], 0⟩, ⟨henabled, handle_isOk_of_spends hspends⟩,
    ⟨⟨⟨htimely, leavesRoom_of_spends hspends⟩, hcreates⟩, hwithin⟩, hspends, ?_, ?_⟩
  · rw [object_next]
    exact wakeable_next henabled hcreates hwakeable
  · rw [object_next]
    exact Nat.lt_of_succ_le hless

/-- The call under way, if any, brought to its end. -/
theorem exists_timely_end (hwakeable : Wakeable y.object) :
    ∃ more z, Run Execution.system (fun x m => Working N x m ∧ WithinCall x.object m.action)
        y more z ∧ z.object.phase = .idle ∧ more.length ≤ remaining y.object ∧
      ∀ m ∈ more, spends m.action = true :=
  exists_run_to (fun x : Execution => remaining x.object) (fun x => Wakeable x.object)
    (fun x => x.object.phase = .idle) (fun m : Move => spends m.action = true)
    (fun _ hx hbegun => exists_working_step hx hbegun) hwakeable

/-- **Timely calls come to an end.** Every timely run from a fresh object while sockets
can be created goes on, within the steps left to the call under way and without any
more messages, by such steps to a state between two calls. All calls begun have returned
then, each once, and they are in their order a run of the sequential object, which ends
with the object's members. -/
theorem timely_calls_complete (hN : 8 < N) (hfresh : x.Fresh N o)
    (hrun : Run Execution.system (Working N) x moves y) :
    ∃ more z, Run Execution.system (Working N) x (moves ++ more) z ∧
      (more.length ≤ remaining y.object ∧ ∀ m ∈ more, spends m.action = true) ∧
      z.object.phase = .idle ∧
      (trace Execution.system returns x (moves ++ more)).length = y.object.calls ∧
      Run (sequential N) (fun _ _ => True) o
        (trace Execution.system returns x (moves ++ more)) z.session.state.members := by
  obtain ⟨more, z, hmore, hidle, hlength, hspends⟩ :=
    exists_timely_end (N := N) (working_wakeable hfresh hrun)
  have hall := hrun.append (hmore.weaken fun _ _ hguard => hguard.1)
  have hcalls : z.object.calls = y.object.calls :=
    hmore.invariant (fun x => x.object.calls = y.object.calls)
      (fun x m _ hguard hx => by
        change (x.next m).object.calls = y.object.calls
        rw [object_next, calls_next hguard.2, hx]) rfl
  have hcount := returns_count hfresh hall
  rw [unreturned, if_pos hidle, Nat.add_zero, hcalls] at hcount
  obtain ⟨o', hsequential, -, hrepresents⟩ :=
    timely_represents hN hfresh (hall.weaken fun _ _ hguard => hguard.1)
  obtain rfl := hrepresents.between hidle
  exact ⟨more, z, hall, ⟨hlength, hspends⟩, hidle, hcount, hsequential⟩

end Runs

/-- A second call on the object, under way after the first one has returned. -/
def secondUnderway : List Move := twoTurns.take 14

theorem timely_calls_complete_getState :
    ∃ y more z, Run Execution.system (Working 16) (Execution.fresh 16) secondUnderway y ∧
      y.object.phase = .armed ∧
      Run Execution.system (Working 16) (Execution.fresh 16) (secondUnderway ++ more) z ∧
      z.object.phase = .idle ∧
      (trace Execution.system returns (Execution.fresh 16)
        (secondUnderway ++ more)).length = 2 := by
  have hrun : Run Execution.system (Working 16) (Execution.fresh 16) secondUnderway _ :=
    .of_check rfl
  obtain ⟨more, z, hall, -, hidle, hcount, -⟩ :=
    timely_calls_complete (by decide) (Execution.fresh_fresh 16) hrun
  exact ⟨_, more, z, hrun, rfl, hall, hidle, hcount⟩

end AdbClient.Guarantees.TimelyCalls
