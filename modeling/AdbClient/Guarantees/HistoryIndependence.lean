import AdbClient.Source.CallHistory
import AdbClient.Guarantees.ShellData

/-!
# What a call keeps of the calls before it

Two members outlive a call and show in the next one. `m_shell_data` is assigned
only by messages taken for output, so a command without output returns the last
output of the commands before. `m_error` is never cleared, so every error message
repeats all error texts received before. Two histories are told apart by exactly
that: the last output, and all error texts joined.
-/
namespace AdbClient.Guarantees.HistoryIndependence
open Source Abstract ShellData Support.Stream
open LocalCommand (ShellCall getShellData)

section After
variable {κ : Type} {run : κ → Nat → CallState → List Bytes → Except Fault Session} {N : Nat}
  {o o' : Members} {history : List (Invocation κ)} {i : Invocation κ}

theorem invokeAfter_eq (h : o.after run N history = .ok o') :
    o.invokeAfter run N history i = o'.invoke run N i := by
  rw [Members.invokeAfter, h]
  rfl

end After

section Shell
variable {N : Nat}

/-- All messages of a history, in order. -/
def received {κ : Type} (history : List (Invocation κ)) : List Bytes :=
  history.flatMap Invocation.messages

theorem lastOutput_append (msgs more : List Bytes) (old : Bytes) :
    lastOutput (msgs ++ more) old = lastOutput more (lastOutput msgs old) := by
  unfold lastOutput
  rw [List.filter_append, List.getLast?_append]
  cases (more.filter fun m => decide (ShellOutput m)).getLast? <;> rfl

/-- A history of shell commands leaves the last message taken for output. -/
theorem shell_after (hN : 8 < N) (o : Members) (history : List (Invocation ShellCall))
    (hfit : ∀ i ∈ history, Fit N i.messages) :
    ∃ o', o.after ShellCall.call N history = .ok o' ∧
      o'.shellData = lastOutput (received history) o.shellData := by
  induction history generalizing o with
  | nil => exact ⟨o, rfl, rfl⟩
  | cons i history ih =>
    obtain ⟨x, hx, -, hdata, -⟩ :=
      shellCall_run hN i.call (o.enter i) (hfit i (by simp))
    obtain ⟨o', hrun, hlast⟩ := ih x.state.members (fun j hj => hfit j (by simp [hj]))
    refine ⟨o', ?_, ?_⟩
    · rw [Members.after, List.foldlM_cons, Members.invoke, hx]
      exact hrun
    · rw [hlast, show x.state.members.shellData = _ from hdata]
      exact (lastOutput_append i.messages (received history) o.shellData).symm

/-- A call after a history of shell commands: its status is its own, its data and
its output argument show the history where none of its messages is taken. -/
theorem shell_invokeAfter (hN : 8 < N) (o : Members) {history : List (Invocation ShellCall)}
    (hhistory : ∀ j ∈ history, Fit N j.messages) (i : Invocation ShellCall)
    (hfit : Fit N i.messages) :
    ∃ x, o.invokeAfter ShellCall.call N history i = .ok x ∧
      x.returned = some ((i.messages.getLast?.map transportStatus).getD 0) ∧
      getShellData x.state = lastOutput i.messages (lastOutput (received history) o.shellData) ∧
      x.state.output =
        i.call.outputAfter { o.enter i with shellData := getShellData x.state } := by
  obtain ⟨o', hrun, hlast⟩ := shell_after hN o history hhistory
  obtain ⟨x, hx, hreturned, hdata, houtput⟩ := shellCall_run hN i.call (o'.enter i) hfit
  have hold : getShellData (o'.enter i) = lastOutput (received history) o.shellData := hlast
  refine ⟨x, (invokeAfter_eq hrun).trans hx, hreturned, hold ▸ hdata, ?_⟩
  rw [houtput, hdata]
  cases i.call <;> rfl

end Shell

/-- The two calls return the same status and leave the same data and output. -/
def SameResult (x y : Session) : Prop :=
  x.returned = y.returned ∧ getShellData x.state = getShellData y.state ∧
    x.state.output = y.state.output

/-- **When a shell command does not show the commands before it.** For every
object, any two histories of shell commands on it and any next one: after both
histories it gives the same result if and only if one of its own messages is
taken for output, or the last message taken for output in the two histories had
the same text. -/
theorem shell_independent_iff {N : Nat} (hN : 8 < N) (o : Members)
    (earlier other : List (Invocation ShellCall)) (hearlier : ∀ j ∈ earlier, Fit N j.messages)
    (hother : ∀ j ∈ other, Fit N j.messages) (i : Invocation ShellCall) (hfit : Fit N i.messages) :
    (∃ x y, o.invokeAfter ShellCall.call N earlier i = .ok x ∧
      o.invokeAfter ShellCall.call N other i = .ok y ∧ SameResult x y) ↔
    (∃ m ∈ i.messages, ShellOutput m) ∨
      lastOutput (received earlier) o.shellData = lastOutput (received other) o.shellData := by
  obtain ⟨x, hx, hreturned, hdata, houtput⟩ := shell_invokeAfter hN o hearlier i hfit
  obtain ⟨y, hy, hreturned', hdata', houtput'⟩ := shell_invokeAfter hN o hother i hfit
  have hsame : SameResult x y ↔ getShellData x.state = getShellData y.state := by
    unfold SameResult
    rw [hreturned, hreturned', houtput, houtput']
    constructor
    · intro h
      exact h.2.1
    · intro h
      exact ⟨rfl, h, by rw [h]⟩
  simp only [hx, hy, Except.ok.injEq, exists_and_left, exists_eq_left', hsame]
  rw [hdata, hdata', lastOutput_eq_iff]

def uname : Invocation ShellCall :=
  ⟨.shell (ascii "d17cdac6") (ascii "uname"), [], 0, [okay, okay, ascii "Linux\n"]⟩

/-- A command that succeeds without output. -/
def sync : Invocation ShellCall :=
  ⟨.shell (ascii "d17cdac6") (ascii "sync"), [], 0, [okay, okay]⟩

theorem shell_independent_uname :
    ∃ x y, Members.new.invokeAfter ShellCall.call 64 [sync] uname = .ok x ∧
      Members.new.invokeAfter ShellCall.call 64 [] uname = .ok y ∧ SameResult x y :=
  (shell_independent_iff (by decide) Members.new [sync] [] (by decide) (by decide) uname
    (by decide)).mpr (.inl ⟨ascii "Linux\n", by decide, by decide⟩)

/-- After another command, one without output returns the other's. -/
theorem shell_independent_fails :
    ¬ ∃ x y, Members.new.invokeAfter ShellCall.call 64 [uname] sync = .ok x ∧
      Members.new.invokeAfter ShellCall.call 64 [] sync = .ok y ∧ SameResult x y := by
  intro hindependent
  obtain ⟨x, y, hx, hy, -, hdata, -⟩ := hindependent
  have huname : ∀ j ∈ [uname], Fit 64 j.messages := by decide
  have hnone : ∀ j ∈ ([] : List (Invocation ShellCall)), Fit 64 j.messages := by decide
  have hfit : Fit 64 sync.messages := by decide
  obtain ⟨x', hx', -, hlast, -⟩ := shell_invokeAfter (by decide) Members.new huname sync hfit
  obtain ⟨y', hy', -, hlast', -⟩ := shell_invokeAfter (by decide) Members.new hnone sync hfit
  rw [hx', Except.ok.injEq] at hx
  rw [hy', Except.ok.injEq] at hy
  subst hx hy
  rw [hlast, hlast'] at hdata
  exact absurd hdata (by decide)

section Host
variable {N : Nat} {c : Call} {s : CallState} {msgs : List Bytes}

/-- All error texts of a history, in order. -/
def errors (history : List (Invocation Call)) : Bytes :=
  (received history).flatMap fun m => (reading m).error

theorem errors_cons (i : Invocation Call) (history : List (Invocation Call)) :
    errors (i :: history) = (i.messages.flatMap fun m => (reading m).error) ++ errors history := by
  simp [errors, received]

/-- A call that comes back: its status, and its error texts behind the old ones. -/
theorem host_call (hN : 8 < N) (hc : c.OnHost) (hfit : Fit N msgs) {x : Session}
    (h : c.run N s msgs = .ok x) :
    x.returned = some ((msgs.getLast?.map fun m => (reading m).status).getD c.operation.status) ∧
      errorMessage x.state = errorMessage s ++ msgs.flatMap fun m => (reading m).error := by
  obtain ⟨t, hrun, rfl⟩ := (call_ok_iff hN c msgs hfit s x).mp h
  have hstatus := host_run_status hc hrun
  have herror := host_run_error hc hrun
  exact ⟨congrArg some hstatus, herror⟩

/-- It comes back on any other state of the object, too. -/
theorem host_call_ok (hN : 8 < N) (hfit : Fit N msgs) {x : Session}
    (h : c.run N s msgs = .ok x) (s' : CallState) : ∃ y, c.run N s' msgs = .ok y := by
  obtain ⟨t, hrun, -⟩ := (call_ok_iff hN c msgs hfit s x).mp h
  have hmsgs := (next_run_ok_iff c (entered c s) msgs).mp ⟨t, hrun⟩
  obtain ⟨t', hrun'⟩ := (next_run_ok_iff c (entered c s') msgs).mpr hmsgs
  exact ⟨_, (call_ok_iff hN c msgs hfit s' _).mpr ⟨t', hrun', rfl⟩⟩

/-- A history of host calls appends all its error texts. -/
theorem host_after (hN : 8 < N) {o o' : Members} {history : List (Invocation Call)}
    (hhost : ∀ i ∈ history, i.call.OnHost ∧ Fit N i.messages)
    (h : o.after Call.run N history = .ok o') : o'.error = o.error ++ errors history := by
  induction history generalizing o with
  | nil =>
    cases h
    exact (List.append_nil _).symm
  | cons i history ih =>
    obtain ⟨p, hp, hrest⟩ := foldlM_cons_ok h
    obtain ⟨x, hx, rfl⟩ := map_eq_ok hp
    obtain ⟨hc, hfit⟩ := hhost i (by simp)
    have herror : x.state.members.error = _ := (host_call hN hc hfit hx).2
    rw [ih (fun j hj => hhost j (by simp [hj])) hrest, herror, errors_cons, List.append_assoc]
    rfl

end Host

/-- **When an error message does not show the failures before it.** For every
object of the host classes, any two histories of calls on it that came back and
any next waiting call that returns -1 after the first of them: after the second
it returns -1 with the same error message if and only if the error texts received
in the two histories, joined, are the same. -/
theorem error_independent_iff {N : Nat} (hN : 8 < N) (o : Members)
    (earlier other : List (Invocation Call))
    (hearlier : ∀ j ∈ earlier, j.call.OnHost ∧ Fit N j.messages)
    (hother : ∀ j ∈ other, j.call.OnHost ∧ Fit N j.messages) {o₂ : Members}
    (hdone : o.after Call.run N other = .ok o₂) (i : Invocation Call)
    (hwaits : i.call.WaitsOnHost) (hfit : Fit N i.messages) {x : Session}
    (hx : o.invokeAfter Call.run N earlier i = .ok x) (hfailed : x.returned = some (-1)) :
    (∃ y, o.invokeAfter Call.run N other i = .ok y ∧ y.returned = some (-1) ∧
      errorMessage y.state = errorMessage x.state) ↔ errors earlier = errors other := by
  have hc := hwaits.onHost
  cases hrun : o.after Call.run N earlier with
  | error fault =>
    rw [Members.invokeAfter, hrun] at hx
    cases hx
  | ok o₁ =>
    rw [invokeAfter_eq hrun] at hx
    obtain ⟨y, hy⟩ := host_call_ok hN hfit hx (o₂.enter i)
    obtain ⟨hstatus, herror⟩ := host_call hN hc hfit hx
    obtain ⟨hstatus', herror'⟩ := host_call hN hc hfit hy
    have hy' : o.invokeAfter Call.run N other i = .ok y := by
      rw [invokeAfter_eq hdone]
      exact hy
    rw [hstatus] at hfailed
    simp only [hy', Except.ok.injEq, exists_eq_left', hstatus', hfailed, true_and]
    rw [herror, herror', List.append_left_inj,
      show errorMessage (o₁.enter i) = o₁.error from rfl,
      show errorMessage (o₂.enter i) = o₂.error from rfl, host_after hN hearlier hrun,
      host_after hN hother hdone, List.append_right_inj]
    exact eq_comm

/-- A connect that is refused. -/
def refusedConnect : Invocation Call :=
  ⟨.host (.connect (ascii "10.0.0.1") (ascii "5555")), [], 0, [ascii "FAIL0004down"]⟩

def devices : Invocation Call := ⟨.host .getDevices, [], 0, [ascii "OKAY0000"]⟩

theorem error_independent_devices :
    ∃ y, Members.new.invokeAfter Call.run 64 [devices] refusedConnect = .ok y ∧
      y.returned = some (-1) ∧ errorMessage y.state = ascii "down" := by
  have hdone : Members.new.after Call.run 64 [devices] = .ok Members.new := rfl
  exact (error_independent_iff (by decide) Members.new [] [devices] (by decide) (by decide) hdone
    refusedConnect trivial (by decide) rfl rfl).mpr rfl

/-- A second refusal is reported with the text of the first in front. -/
theorem error_independent_fails :
    ∃ x y, Members.new.invokeAfter Call.run 64 [] refusedConnect = .ok x ∧
      x.returned = some (-1) ∧
      Members.new.invokeAfter Call.run 64 [refusedConnect] refusedConnect = .ok y ∧
      y.returned = some (-1) ∧ errorMessage y.state ≠ errorMessage x.state := by
  refine ⟨_, _, rfl, rfl, rfl, rfl, ?_⟩
  decide

end AdbClient.Guarantees.HistoryIndependence
