import AdbClient.Abstract.Reply
import AdbClient.Guarantees.TransportHandshake

/-!
# A refused transport

`respond_transport_command` takes a message for a refusal only when it is the
four bytes `FAIL` and nothing else, and each message overwrites the status. A
refusal carries its length and text behind the status, so it is seen as one only
when another `FAIL` of its text happens to arrive last and alone. What comes in
between is taken for the output of the service by `shell` and `list_reverse`.
-/
namespace AdbClient.Guarantees.TransportRefusal
open Source Abstract Support.Stream TransportHandshake

/-- The operations whose callback goes through `respond_transport_command`. -/
def Responds : LocalCommand.Call → Prop
  | .screencap _ => False
  | _ => True

/-- The call fails, the service is not requested, and neither `m_shell_data` nor
the list handed in has changed. -/
def Refused (c : LocalCommand.Call) (s : CallState) (x : Session) : Prop :=
  x.returned = some (-1) ∧ frame c.operation.cmd ∉ x.written ∧
    x.state.shellData = s.shellData ∧ x.state.output = s.output

/-- The messages give the operation no new data. For `shell` the last message
taken for output is what `m_shell_data` holds already; for `list_reverse` no
message carries text where the callback looks for it. -/
def DataKept : LocalCommand.Call → CallState → List Bytes → Prop
  | .shell _ _, s, msgs =>
      ∀ m, (msgs.filter fun m => decide (ShellOutput m)).getLast? = some m → text m = s.shellData
  | .listReverse _, _, msgs =>
      ∀ m ∈ msgs, m ≠ fail → text (m.drop (if okay <:+: text m then 8 else 4)) = []
  | _, _, _ => True

/-- The messages the refusal is seen in. -/
def RefusalSeen (c : LocalCommand.Call) (s : CallState) (msgs : List Bytes) : Prop :=
  msgs.getLast? = some fail ∧ okay ∉ msgs ∧ DataKept c s msgs

section Run
variable {c : LocalCommand.Call} {s : CallState} {msgs : List Bytes}

theorem device_run_status (hc : Responds c) :
    (msgs.foldl (deviceNext c) s).status = (msgs.getLast?.map transportStatus).getD s.status := by
  apply run_overwrites CallState.status transportStatus _ (foldlM_ok (deviceNext c) msgs s)
  intro s m s' hstep
  cases hstep
  cases c with
  | screencap serial => exact hc.elim
  | _ => rfl

/-- The last message says whether the call failed. -/
theorem device_run_returns (hc : Responds c) (hne : msgs ≠ []) :
    (msgs.foldl (deviceNext c) s).status = if msgs.getLast? = some fail then -1 else 0 := by
  rw [device_run_status hc, List.getLast?_eq_some_getLast hne, Option.map_some, Option.getD_some,
    transportStatus]
  simp only [Option.some.injEq]

theorem shell_run_data (serial command : Bytes) :
    (msgs.foldl (deviceNext (.shell serial command)) s).shellData =
      ((msgs.filter fun m => decide (ShellOutput m)).getLast?.map text).getD s.shellData := by
  apply run_overwrites_where CallState.shellData text _ _
    (foldlM_ok (deviceNext (.shell serial command)) msgs s)
  intro s m s' hstep
  cases hstep
  simp [deviceNext]

theorem listReverse_run_output (serial : Bytes) :
    (msgs.foldl (deviceNext (.listReverse serial)) s).output = s.output ++ msgs.flatMap listed := by
  apply run_appends CallState.output listed _ (foldlM_ok (deviceNext (.listReverse serial)) msgs s)
  intro s m s' hstep
  cases hstep
  rfl

/-- Only `list_reverse` and `screencap` write an output. -/
theorem device_run_output (hc : Responds c) (hlist : ∀ serial, c ≠ .listReverse serial) :
    (msgs.foldl (deviceNext c) s).output = s.output := by
  apply run_keeps CallState.output _ (foldlM_ok (deviceNext c) msgs s)
  intro s m s' hstep
  cases hstep
  cases c with
  | screencap serial => exact hc.elim
  | listReverse serial => exact absurd rfl (hlist serial)
  | _ => rfl

/-- Only `shell` writes `m_shell_data`. -/
theorem device_run_shellData (hc : Responds c)
    (hshell : ∀ serial command, c ≠ .shell serial command) :
    (msgs.foldl (deviceNext c) s).shellData = s.shellData := by
  apply run_keeps CallState.shellData _ (foldlM_ok (deviceNext c) msgs s)
  intro s m s' hstep
  cases hstep
  cases c with
  | screencap serial => exact hc.elim
  | shell serial command => exact absurd rfl (hshell serial command)
  | _ => rfl

theorem listed_eq_nil_iff (m : Bytes) :
    listed m = [] ↔ m ≠ fail → text (m.drop (if okay <:+: text m then 8 else 4)) = [] := by
  unfold listed
  by_cases hf : m = fail
  · simp [hf]
  · by_cases ho : okay <:+: text m
    · simp [hf, ho]
    · simp [hf, ho]

theorem dataKept_iff (hc : Responds c) :
    ((msgs.foldl (deviceNext c) s).shellData = s.shellData ∧
      (msgs.foldl (deviceNext c) s).output = s.output) ↔ DataKept c s msgs := by
  cases c with
  | screencap serial => exact hc.elim
  | shell serial command =>
    rw [shell_run_data, device_run_output hc (by simp)]
    cases hlast : (msgs.filter fun m => decide (ShellOutput m)).getLast? with
    | none => simp [DataKept, hlast]
    | some m => simp [DataKept, hlast]
  | listReverse serial =>
    rw [listReverse_run_output, device_run_shellData hc (by simp)]
    simp only [DataKept, true_and, List.append_right_eq_self, List.flatMap_eq_nil_iff,
      listed_eq_nil_iff]
  | _ =>
    rw [device_run_output hc (by simp), device_run_shellData hc (by simp)]
    simp [DataKept]

/-- The initial status of a call is no part of its data. -/
theorem dataKept_entered : DataKept c (entered (.device c) s) msgs ↔ DataKept c s msgs := by
  cases c <;> rfl

end Run

/-- **When a refused transport is reported.** For every operation that answers
through `respond_transport_command` and every way the refusal arrives: the call
returns -1 without requesting the service and without touching its data if and
only if the last message is `FAIL` alone, no message is `OKAY` alone, and the
messages before the last gave the operation nothing to take for output. -/
theorem refused_iff {N : Nat} (hN : 8 < N) (c : LocalCommand.Call) (hc : Responds c)
    (s : CallState) (E : Bytes) (msgs : List Bytes) (hcut : Cut (reply fail E) msgs)
    (hfit : Fit N msgs) :
    (∃ x, c.operation.call N s msgs = .ok x ∧ Refused c s x) ↔ RefusalSeen c s msgs := by
  let t := msgs.foldl (deviceNext c) (entered (.device c) s)
  have hstatus : t.status = -1 ↔ msgs.getLast? = some fail := by
    have hrun : t.status = _ := device_run_returns hc (hcut.ne_nil (reply_ne_nil E).1)
    rw [hrun]
    split <;> simp_all
  have hwritten : frame c.operation.cmd ∉ (finishedSession (.device c) N msgs t).written ↔
      okay ∉ msgs := by
    rw [← List.count_pos_iff, count_requests, List.count_pos_iff]
  have hdata : t.shellData = s.shellData ∧ t.output = s.output ↔ DataKept c s msgs :=
    (dataKept_iff hc).trans dataKept_entered
  rw [device_call hN c msgs hfit s]
  simp only [Except.ok.injEq, exists_eq_left']
  unfold Refused RefusalSeen
  rw [finishedSession_returned, Option.some.injEq, hwritten, hstatus]
  exact and_congr_right' (and_congr_right' hdata)

theorem refused_sync :
    ∃ x, (LocalCommand.Call.sync (ascii "d17cdac6")).operation.call 64 CallState.fresh
        [fail, ascii "0004", fail] = .ok x ∧
      Refused (.sync (ascii "d17cdac6")) CallState.fresh x :=
  (refused_iff (by decide) (.sync (ascii "d17cdac6")) trivial CallState.fresh fail
    [fail, ascii "0004", fail] ⟨by decide, by decide⟩ (by decide)).mpr
    ⟨by decide, by decide, trivial⟩

/-- A refusal that arrives as one message is shell output, and the call succeeds. -/
theorem refused_fails :
    Cut (reply fail (ascii "closed")) [ascii "FAIL0006closed"] ∧
      Fit 64 [ascii "FAIL0006closed"] ∧
      ¬ ∃ x, (LocalCommand.Call.shell (ascii "d17cdac6") (ascii "ls")).operation.call 64
          CallState.fresh [ascii "FAIL0006closed"] = .ok x ∧
        Refused (.shell (ascii "d17cdac6") (ascii "ls")) CallState.fresh x := by
  refine ⟨⟨by decide, by decide⟩, by decide, ?_⟩
  intro hkept
  obtain ⟨x, hx, hreturned, -⟩ := hkept
  rw [device_call (by decide) _ _ (by decide)] at hx
  cases hx
  exact absurd hreturned (by decide)

end AdbClient.Guarantees.TransportRefusal
