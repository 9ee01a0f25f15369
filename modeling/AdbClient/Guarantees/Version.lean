import AdbClient.Abstract.Reply

/-!
# The version number

`get_version` hands every text that is not empty to `std::stoi`, which throws on
what is no number or does not fit an `int`. Nothing catches the exception on the
network thread. A message is safe when it is a failure, leaves no text, or leaves
a number.

A version the server prints is such a number, whether its length and digits come
with the status or behind it.
-/
namespace AdbClient.Guarantees.Version
open Source Abstract Support.Numeral Support.Stream

/-- Behind spaces, a sign and a `0x` the text has a hexadecimal digit, and the
number its digits make fits an `int`. -/
def HexNumber (w : Bytes) : Prop :=
  let sign := takeSign ((text w).dropWhile isSpace)
  let ds := leadingDigits hexadecimal (dropHexPrefix sign.2)
  ds ≠ [] ∧ fitsInt (signed sign.1 (value 16 ds))

instance (w : Bytes) : Decidable (HexNumber w) := inferInstanceAs (Decidable (_ ∧ _))

/-- These are the texts `std::stoi` does not throw on. -/
theorem stoi16_isOk_iff (w : Bytes) : (stoi16 w).isOk ↔ HexNumber w := by
  unfold stoi16 HexNumber
  dsimp only
  split
  next hnone => simp [hnone, Except.isOk, Except.toBool]
  next hsome =>
    split
    next hfits => simp [hsome, hfits, Except.isOk, Except.toBool]
    next hfits => simp [hfits, Except.isOk, Except.toBool]

/-- The message leaves no text, or a number. -/
def NumberOrNothing (m : Bytes) : Prop :=
  (reading m).result = [] ∨ HexNumber (reading m).result

instance (m : Bytes) : Decidable (NumberOrNothing m) := inferInstanceAs (Decidable (_ ∨ _))

section OneMessage
variable {s t : CallState} {m : Bytes}

theorem numberOrNothing_iff (m : Bytes) :
    NumberOrNothing m ↔ ¬ Rejected (.host .getVersion) m := by
  have hfailed : (reading m).status = -1 → (reading m).result = [] := by
    intro hstatus
    apply reading_result_of_fail
    by_contra hfail
    rw [reading_status, if_neg hfail] at hstatus
    cases hstatus
  unfold NumberOrNothing Rejected
  rw [stoi16_isOk_iff]
  constructor
  · intro h hrejected
    rcases h with hnil | hnumber
    · exact hrejected.2.2.1 hnil
    · exact hrejected.2.2.2 hnumber
  · intro h
    by_contra hneither
    obtain ⟨hne, hnumber⟩ := not_or.mp hneither
    exact h ⟨rfl, mt hfailed hne, hne, hnumber⟩

/-- What is no number changes no version. -/
theorem next_version (h : (meaning (.host .getVersion)).next s m = .ok t)
    (hnumber : ¬ HexNumber (reading m).result) : t.version = s.version := by
  rw [← stoi16_isOk_iff] at hnumber
  simp only [meaning, hostNext, bind, Except.bind, pure, Except.pure] at h
  split at h
  · cases hstoi : stoi16 (reading m).result with
    | error fault =>
      rw [hstoi] at h
      cases h
    | ok version =>
      rw [hstoi] at hnumber
      exact absurd rfl hnumber
  · cases h
    rfl

/-- A number is stored. -/
theorem next_number {w : Bytes} {v : Int} (hread : reading m = ⟨0, w, []⟩) (hw : w ≠ [])
    (hv : stoi16 w = .ok v) (s : CallState) :
    ∃ t, (meaning (.host .getVersion)).next s m = .ok t ∧ t.status = 0 ∧ t.version = v := by
  refine ⟨{ takeReading s m with version := v }, ?_, congrArg Reading.status hread, rfl⟩
  simp [meaning, hostNext, hread, hw, hv, bind, Except.bind, pure, Except.pure]

end OneMessage

/-- The callback completes on the next message, and leaves the version alone when
the message has no number. -/
def CompletesOn (N : Nat) (s : CallState) (before : List Bytes) (m : Bytes) : Prop :=
  ∃ x y, HostCommand.getVersion.underway N s before = .ok x ∧
    HostCommand.getVersion.underway N s (before ++ [m]) = .ok y ∧
    (¬ HexNumber (reading m).result → y.state.version = x.state.version)

section Underway
variable {N : Nat} {before : List Bytes} {m : Bytes}

/-- A connection goes on as long as no message leaves a text that is no number. -/
theorem underway_ok (hN : 8 < N) (s : CallState) {msgs : List Bytes} (hfit : Fit N msgs) :
    (∃ x, HostCommand.getVersion.underway N s msgs = .ok x) ↔ ∀ m ∈ msgs, NumberOrNothing m := by
  have hunderway := underway_ok_iff hN (.host .getVersion) msgs hfit s
  simp only [numberOrNothing_iff]
  rw [← next_run_ok_iff (.host .getVersion) (entered (.host .getVersion) s) msgs]
  constructor
  · intro h
    obtain ⟨x, hx⟩ := h
    exact ⟨x.state, (hunderway x.state).mp ⟨x, hx, rfl⟩⟩
  · intro h
    obtain ⟨t, ht⟩ := h
    obtain ⟨x, hx, -⟩ := (hunderway t).mpr ht
    exact ⟨x, hx⟩

/-- One message more is one step more. -/
theorem completesOn_of_underway (hN : 8 < N) {s : CallState} {y : Session}
    (hfit : Fit N (before ++ [m]))
    (hy : HostCommand.getVersion.underway N s (before ++ [m]) = .ok y) :
    CompletesOn N s before m := by
  have hbefore : Fit N before := fun w hw => hfit w (List.mem_append_left _ hw)
  have hrun := (underway_ok_iff hN (.host .getVersion) (before ++ [m]) hfit s y.state).mp
    ⟨y, hy, rfl⟩
  obtain ⟨t, ht, hnext⟩ := foldlM_concat_ok hrun
  obtain ⟨x, hx, rfl⟩ := (underway_ok_iff hN (.host .getVersion) before hbefore s t).mpr ht
  exact ⟨x, y, hx, hy, next_version hnext⟩

end Underway

/-- **When no version reply ends the process.** For every sequence of messages:
the callback of `get_version` completes on each of them, whatever came before it,
and a reply that is no number leaves the version alone, if and only if every
message leaves no text or a number that fits an `int`. -/
theorem completes_iff {N : Nat} (hN : 8 < N) (s : CallState) (msgs : List Bytes)
    (hfit : Fit N msgs) :
    (∀ before m after, msgs = before ++ m :: after → CompletesOn N s before m) ↔
      ∀ m ∈ msgs, NumberOrNothing m := by
  have hfront : ∀ {before m after}, msgs = before ++ m :: after → before ++ [m] <+: msgs :=
    fun hmsgs => ⟨_, by rw [hmsgs, List.append_assoc, List.singleton_append]⟩
  constructor
  · intro h m hm
    obtain ⟨before, after, hmsgs⟩ := List.append_of_mem hm
    obtain ⟨_, y, _, hy, _⟩ := h before m after hmsgs
    have hfit' : Fit N (before ++ [m]) := fun w hw => hfit w ((hfront hmsgs).subset hw)
    exact (underway_ok hN s hfit').mp ⟨y, hy⟩ m (by simp)
  · intro h before m after hmsgs
    have hfit' : Fit N (before ++ [m]) := fun w hw => hfit w ((hfront hmsgs).subset hw)
    obtain ⟨y, hy⟩ := (underway_ok hN s hfit').mpr fun w hw => h w ((hfront hmsgs).subset hw)
    exact completesOn_of_underway hN hfit' hy

/-- A refusal, then a version. -/
theorem completes_refusal :
    CompletesOn 64 .fresh [ascii "FAIL0004down"] (ascii "OKAY00040029") :=
  (completes_iff (by decide) .fresh [ascii "FAIL0004down", ascii "OKAY00040029"]
    (by decide)).mpr (by decide) [ascii "FAIL0004down"] (ascii "OKAY00040029") [] rfl

/-- A reply of four letters that are no digits. -/
theorem completes_fails :
    Fit 64 [ascii "OKAY0004what"] ∧ ¬ CompletesOn 64 .fresh [] (ascii "OKAY0004what") := by
  have hfit : Fit 64 [ascii "OKAY0004what"] := by decide
  refine ⟨hfit, ?_⟩
  intro h
  obtain ⟨_, y, _, hy, _⟩ := h
  have hnumber := (underway_ok (by decide) .fresh hfit).mp ⟨y, hy⟩
  exact absurd hnumber (by decide)

section Printed

/-- A printed version has at most eight digits, none of them a zero byte. -/
theorem printed_length_le (v : Nat) : (stringPrintf04x v).length ≤ 8 := by
  have hdigits := (Nat.digits_length_le_iff hexadecimal.one_lt (k := 8) (v % 2 ^ 32)).mpr
    (Nat.mod_lt v (by decide))
  rw [stringPrintf04x, hexadecimal.print_length]
  omega

theorem zero_not_mem_printed (v : Nat) : 0 ∉ stringPrintf04x v := by
  intro hz
  have := (mem_hexadecimal_print hz).1
  simp [hexDigit] at this

theorem printed_ne_nil (v : Nat) : stringPrintf04x v ≠ [] :=
  print_ne_nil hexadecimal (by decide)

/-- The status in a message of its own leaves the version alone. -/
theorem next_okay (s : CallState) :
    (meaning (.host .getVersion)).next s okay = .ok { s with status := 0 } := by
  have hread : reading okay = ⟨0, [], []⟩ := by decide
  simp [meaning, hostNext, takeReading, hread, bind, Except.bind, pure, Except.pure]

end Printed

/-- **Every version comes back.** For every version an `int` holds that is not
negative: the server prints it with `%04x` and sends it behind its length, in one
message with the status or in a second one; the call returns 0 and stores it. -/
theorem version_returned {N : Nat} (hN : 8 < N) (s : CallState) {v : Nat} (hv : v < 2 ^ 31)
    (msgs : List Bytes)
    (hmsgs : msgs = [reply okay (stringPrintf04x v)] ∨
      msgs = [okay, hexadecimal.print 4 (stringPrintf04x v).length ++ stringPrintf04x v])
    (hfit : Fit N msgs) :
    ∃ x, HostCommand.getVersion.call N s msgs = .ok x ∧ x.returned = some 0 ∧
      x.state.version = v := by
  have hlen := printed_length_le v
  have hzero := zero_not_mem_printed v
  have hnumber := stoi16_stringPrintf04x hv
  have hcall := call_ok_iff hN (.host .getVersion) msgs hfit s
  suffices hrun : ∃ t, msgs.foldlM (meaning (.host .getVersion)).next
      (entered (.host .getVersion) s) = .ok t ∧ t.status = 0 ∧ t.version = v by
    obtain ⟨t, ht, hstatus, hversion⟩ := hrun
    exact ⟨_, (hcall _).mpr ⟨t, ht, rfl⟩, congrArg some hstatus, hversion⟩
  rcases hmsgs with rfl | rfl
  · have hread := reading_reply hzero (by omega)
    obtain ⟨t, ht, hstored⟩ := next_number hread (printed_ne_nil v) hnumber
      (entered (.host .getVersion) s)
    refine ⟨t, ?_, hstored⟩
    rw [List.foldlM_cons, ht]
    rfl
  · have hread := reading_lengthAnd (printed_ne_nil v) hzero (by omega)
    obtain ⟨t, ht, hstored⟩ := next_number hread (printed_ne_nil v) hnumber
      { entered (.host .getVersion) s with status := 0 }
    refine ⟨t, ?_, hstored⟩
    rw [List.foldlM_cons, next_okay, ok_bind, List.foldlM_cons, ht]
    rfl

/-- The version of a server that prints it in two digits more than it needs. -/
theorem version_returned_41 :
    ∃ x, HostCommand.getVersion.call 64 .fresh [okay, ascii "00040029"] = .ok x ∧
      x.returned = some 0 ∧ x.state.version = 41 :=
  version_returned (by decide) .fresh (by decide : 41 < 2 ^ 31) _ (.inr (by decide)) (by decide)

end AdbClient.Guarantees.Version
