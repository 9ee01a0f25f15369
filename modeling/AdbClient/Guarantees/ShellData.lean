import AdbClient.Guarantees.TransportRefusal

/-!
# The output of a shell command

`shell` assigns the text of a message to `m_shell_data` instead of appending it,
so of an output that comes in several pieces the last one stays. Pieces that
begin with `OKAY` or are `FAIL` are not taken at all. When no piece is taken the
member keeps what an earlier command left.
-/
namespace AdbClient.Guarantees.ShellData
open Source Abstract LocalCommand TransportRefusal

/-- What the last message taken for output leaves in `m_shell_data`. -/
def lastOutput (msgs : List Bytes) (old : Bytes) : Bytes :=
  ((msgs.filter fun m => decide (ShellOutput m)).getLast?.map text).getD old

section Run
variable {N : Nat} {msgs : List Bytes}

/-- Status, data and output argument of a call, for all four operations alike. -/
theorem shellCall_run (hN : 8 < N) (c : ShellCall) (s : CallState) (hfit : Fit N msgs) :
    ∃ x, c.call N s msgs = .ok x ∧
      x.returned = some ((msgs.getLast?.map transportStatus).getD 0) ∧
      getShellData x.state = lastOutput msgs (getShellData s) ∧
      x.state.output = c.outputAfter { s with shellData := lastOutput msgs (getShellData s) } := by
  obtain ⟨serial, command, hinner⟩ : ∃ serial command, c.inner = .shell serial command := by
    cases c <;> exact ⟨_, _, rfl⟩
  let t := msgs.foldl (deviceNext c.inner) (entered (.device c.inner) s)
  have hresponds : Responds c.inner := by
    rw [hinner]
    trivial
  have hstatus : t.status = (msgs.getLast?.map transportStatus).getD 0 := by
    rw [device_run_status hresponds, hinner]
    rfl
  have hdata : t.shellData = lastOutput msgs s.shellData := by
    simp only [t, hinner]
    exact shell_run_data serial command
  have houtput : t.output = s.output :=
    device_run_output hresponds (by simp [hinner])
  have hcall : c.call N s msgs = .ok { finishedSession (.device c.inner) N msgs t with
      state := { t with output := c.outputAfter t } } := by
    rw [ShellCall.call, device_call hN c.inner msgs hfit s]
    rfl
  refine ⟨_, hcall, congrArg some hstatus, hdata, ?_⟩
  cases c with
  | shell | logcat => exact houtput
  | listPackages | getProperties => exact hdata

/-- Neither acknowledgement is taken for output. -/
theorem lastOutput_acknowledged (pieces : List Bytes) (old : Bytes) :
    lastOutput (okay :: okay :: pieces) old = lastOutput pieces old := by
  have hokay : ¬ ShellOutput okay := by decide
  simp [lastOutput, hokay]

/-- Either no message is taken for output and the old data stays, or the last one
that is taken replaces it. -/
theorem lastOutput_cases (msgs : List Bytes) :
    ((∀ m ∈ msgs, ¬ ShellOutput m) ∧ ∀ old, lastOutput msgs old = old) ∨
      ∃ m ∈ msgs, ShellOutput m ∧ ∀ old, lastOutput msgs old = text m := by
  cases hlast : (msgs.filter fun m => decide (ShellOutput m)).getLast? with
  | none =>
    left
    constructor
    · simpa using hlast
    · intro old
      rw [lastOutput, hlast]
      rfl
  | some m =>
    right
    have hmem := List.mem_filter.mp (List.mem_of_getLast? hlast)
    refine ⟨m, hmem.1, of_decide_eq_true hmem.2, fun old => ?_⟩
    rw [lastOutput, hlast]
    rfl

/-- Messages show the data there were before unless one of them is taken. -/
theorem lastOutput_eq_iff {msgs : List Bytes} {old old' : Bytes} :
    lastOutput msgs old = lastOutput msgs old' ↔ (∃ m ∈ msgs, ShellOutput m) ∨ old = old' := by
  rcases lastOutput_cases msgs with ⟨hnone, hold⟩ | ⟨m, hm, htaken, hlast⟩
  · rw [hold, hold, or_iff_right]
    intro h
    obtain ⟨m, hm, htaken⟩ := h
    exact hnone m hm htaken
  · rw [hlast, hlast]
    exact iff_of_true rfl (.inl ⟨m, hm, htaken⟩)

end Run

/-- The call succeeds, and its output is the data of the object and, where the
operation has an output argument, the caller's. -/
def Delivered (c : ShellCall) (D : Bytes) (x : Session) : Prop :=
  x.returned = some 0 ∧ getShellData x.state = D ∧
    match c with
    | .listPackages _ | .getProperties _ => x.state.output = D
    | .shell _ _ | .logcat _ => True

/-- The output comes in one piece, and the piece is taken for output. -/
def OnePiece (D : Bytes) (pieces : List Bytes) : Prop := pieces = [D] ∧ ShellOutput D

/-- No piece is taken, none of them fails the call at the end, and the output is
what the object holds already. -/
def HeldAlready (s : CallState) (D : Bytes) (pieces : List Bytes) : Prop :=
  (∀ p ∈ pieces, ¬ ShellOutput p) ∧ pieces.getLast? ≠ some fail ∧ getShellData s = D

/-- The status behind the two acknowledgements. -/
theorem status_acknowledged (pieces : List Bytes) :
    ((okay :: okay :: pieces).getLast?.map transportStatus).getD 0 = 0 ↔
      pieces.getLast? ≠ some fail := by
  rw [List.getLast?_cons, List.getLast?_cons, Option.map_some, Option.getD_some,
    Option.getD_some]
  unfold transportStatus
  cases pieces.getLast? with
  | none => simp [okay_ne_fail]
  | some p =>
    rw [Option.getD_some, ne_eq, Option.some.injEq]
    split <;> simp_all

/-- **When the output of a command is what `shell` delivers.** For every operation
that runs `shell` and every way its output arrives behind the two
acknowledgements: the call returns 0 and the data are exactly the output if and
only if it comes in one piece, or no piece is taken and the data were there. -/
theorem shell_delivers_iff {N : Nat} (hN : 8 < N) (c : ShellCall) (s : CallState) (D : Bytes)
    (hzero : 0 ∉ D) (pieces : List Bytes) (hcut : Cut D pieces)
    (hfit : Fit N (okay :: okay :: pieces)) :
    (∃ x, c.call N s (okay :: okay :: pieces) = .ok x ∧ Delivered c D x) ↔
      OnePiece D pieces ∨ HeldAlready s D pieces := by
  obtain ⟨x, hx, hreturned, hdata, houtput⟩ := shellCall_run hN c s hfit
  rw [lastOutput_acknowledged] at hdata houtput
  have hdelivered : Delivered c D x ↔
      pieces.getLast? ≠ some fail ∧ lastOutput pieces (getShellData s) = D := by
    unfold Delivered
    rw [hreturned, Option.some.injEq, status_acknowledged, hdata]
    cases c with
    | shell | logcat => simp
    | listPackages | getProperties =>
      rw [show x.state.output = lastOutput pieces (getShellData s) from houtput]
      simp
  simp only [hx, Except.ok.injEq, exists_eq_left', hdelivered]
  rcases lastOutput_cases pieces with ⟨hnone, hold⟩ | ⟨p, hp, htaken, hlast⟩
  · rw [hold]
    constructor
    · intro h
      exact .inr ⟨hnone, h⟩
    · intro h
      rcases h with ⟨rfl, hD⟩ | ⟨_, h⟩
      · exact absurd hD (hnone D (by simp))
      · exact h
  · rw [hlast, text_eq_self (hcut.not_mem hzero p hp)]
    constructor
    · intro h
      obtain ⟨_, rfl⟩ := h
      exact .inl ⟨hcut.eq_singleton hp, htaken⟩
    · intro h
      rcases h with ⟨rfl, hD⟩ | ⟨hnone, _⟩
      · refine ⟨?_, by simpa using hp⟩
        simpa using hD.1
      · exact absurd htaken (hnone p hp)

theorem shell_delivers_getProperties :
    ∃ x, (ShellCall.getProperties (ascii "d17cdac6")).call 64 .fresh
        [okay, okay, ascii "[sdk]: [34]\n"] = .ok x ∧
      Delivered (.getProperties (ascii "d17cdac6")) (ascii "[sdk]: [34]\n") x :=
  (shell_delivers_iff (by decide) _ _ _ (by decide) [ascii "[sdk]: [34]\n"]
    ⟨by decide, by decide⟩ (by decide)).mpr (.inl ⟨rfl, by decide⟩)

/-- Of an output in two pieces the second is delivered. -/
theorem shell_delivers_fails :
    Cut (ascii "bin\netc\n") [ascii "bin\n", ascii "etc\n"] ∧
      Fit 64 [okay, okay, ascii "bin\n", ascii "etc\n"] ∧
      ¬ ∃ x, (ShellCall.shell (ascii "d17cdac6") (ascii "ls")).call 64 .fresh
          [okay, okay, ascii "bin\n", ascii "etc\n"] = .ok x ∧
        Delivered (.shell (ascii "d17cdac6") (ascii "ls")) (ascii "bin\netc\n") x := by
  have hfit : Fit 64 [okay, okay, ascii "bin\n", ascii "etc\n"] := by decide
  refine ⟨⟨by decide, by decide⟩, hfit, ?_⟩
  intro hdelivered
  obtain ⟨x, hx, -, hdata, -⟩ := hdelivered
  obtain ⟨y, hy, -, hlast, -⟩ :=
    shellCall_run (by decide) (.shell (ascii "d17cdac6") (ascii "ls")) .fresh hfit
  rw [hx, Except.ok.injEq] at hy
  subst hy
  rw [hdata] at hlast
  exact absurd hlast (by decide)

end AdbClient.Guarantees.ShellData
