import AdbClient.Source.HostSerialCommand
import AdbClient.Support.Pieces
import AdbClient.Support.Separator

/-!
# Requests for one device, told apart

The arguments are pasted into the request unescaped. The serial number may
contain `:`, as that of a network device does, and still comes back: it ends at
the last `:` in front of a keyword without argument, and at a keyword with one.
What turns one request into another is a serial number that contains such a
keyword as a part of its own, a `;` in the local end of a forward, and a local
end that begins like the `norebind:` mark.
-/
namespace AdbClient.Guarantees.SerialRequests
open Source Support.Pieces Support.Separator

def serial : HostSerialCommand.Call → Bytes
  | .forward serial _ _ _ | .listForward serial | .killForward serial _ | .killForwardAll serial
  | .getDevicePath serial | .getSerialNo serial | .getState serial => serial

/-- The word behind the serial number. -/
def keyword : HostSerialCommand.Call → Bytes
  | .forward _ _ _ _ => ascii "forward"
  | .listForward _ => ascii "list-forward"
  | .killForward _ _ => ascii "killforward"
  | .killForwardAll _ => ascii "killforward-all"
  | .getDevicePath _ => ascii "get-devpath"
  | .getSerialNo _ => ascii "get-serialno"
  | .getState _ => ascii "get-state"

def argument : HostSerialCommand.Call → Option Bytes
  | .forward _ localSpec remote norebind =>
      some ((if norebind then ascii "norebind:" ++ localSpec else localSpec) ++ 59 :: remote)
  | .killForward _ localSpec => some localSpec
  | _ => none

/-- Neither keyword that takes an argument is a part of the serial number behind
a `:`. -/
def PlainSerial (s : Bytes) : Prop :=
  ¬ HasPart 58 (ascii "forward") s ∧ ¬ HasPart 58 (ascii "killforward") s

instance (s : Bytes) : Decidable (PlainSerial s) :=
  inferInstanceAs (Decidable (¬ (_ <:+: _) ∧ ¬ (_ <:+: _)))

/-- The local end of a forward has no `;`, and without `norebind` it does not
begin with that mark. -/
def PlainLocal (localSpec : Bytes) (norebind : Bool) : Prop :=
  59 ∉ localSpec ∧ (norebind = false → ¬ ascii "norebind:" <+: localSpec)

def Unambiguous (c : HostSerialCommand.Call) : Prop :=
  PlainSerial (serial c) ∧
    match c with
    | .forward _ localSpec _ norebind => PlainLocal localSpec norebind
    | _ => True

/-- Every request is the serial number, a keyword and its argument, between colons. -/
theorem command_eq (c : HostSerialCommand.Call) :
    c.operation.command =
      ascii "host-serial:" ++ (serial c ++ 58 :: request 58 (keyword c) (argument c)) := by
  cases c with
  | forward serial localSpec remote norebind =>
    cases norebind <;>
      simp [HostSerialCommand.Call.operation, HostSerialCommand.forward,
        HostSerialCommand.serialOperation, HostSerialCommand.hostSerial, SerialRequests.serial,
        keyword, argument, request, ascii]
  | _ => rfl

/-- The forward an argument asks for: its local end ends at the first `;`. -/
def readForward (serial argument : Bytes) : HostSerialCommand.Call :=
  let localSpec := argument.takeWhile (· ≠ 59)
  let remote := argument.drop (localSpec.length + 1)
  if ascii "norebind:" <+: localSpec then .forward serial (localSpec.drop 9) remote true
  else .forward serial localSpec remote false

/-- The call a serial number, a keyword and an argument stand for. -/
def readCall (serial keyword : Bytes) : Option Bytes → Option HostSerialCommand.Call
  | some argument =>
      if keyword = ascii "forward" then some (readForward serial argument)
      else if keyword = ascii "killforward" then some (.killForward serial argument)
      else none
  | none =>
      if keyword = ascii "list-forward" then some (.listForward serial)
      else if keyword = ascii "killforward-all" then some (.killForwardAll serial)
      else if keyword = ascii "get-devpath" then some (.getDevicePath serial)
      else if keyword = ascii "get-serialno" then some (.getSerialNo serial)
      else if keyword = ascii "get-state" then some (.getState serial)
      else none

theorem readForward_plain {localSpec : Bytes} {norebind : Bool} (serial remote : Bytes)
    (h : PlainLocal localSpec norebind) :
    readForward serial
        ((if norebind then ascii "norebind:" ++ localSpec else localSpec) ++ 59 :: remote) =
      .forward serial localSpec remote norebind := by
  obtain ⟨hsemicolon, hmark⟩ := h
  unfold readForward
  cases norebind with
  | true =>
    have hlocal : 59 ∉ ascii "norebind:" ++ localSpec :=
      List.not_mem_append (by decide) hsemicolon
    simp only [if_true, takeWhile_piece hlocal, List.prefix_append]
    simp [ascii]
  | false =>
    simp only [Bool.false_eq_true, if_false, takeWhile_piece hsemicolon, if_neg (hmark rfl)]
    simp

/-- Of an unambiguous call, serial number, keyword and argument tell everything. -/
theorem readCall_parts {c : HostSerialCommand.Call} (h : Unambiguous c) :
    readCall (serial c) (keyword c) (argument c) = some c := by
  cases c with
  | forward serial localSpec remote norebind =>
    exact congrArg some (readForward_plain serial remote h.2)
  | _ => rfl

theorem keyword_not_mem (c : HostSerialCommand.Call) : 58 ∉ keyword c := by
  cases c <;> simp only [keyword] <;> decide

/-- No argument of an unambiguous call is a part of an unambiguous serial number. -/
theorem not_hasPart (c : HostSerialCommand.Call) {s : Bytes} (h : PlainSerial s)
    (harg : (argument c).isSome) : ¬ HasPart 58 (keyword c) s := by
  cases c with
  | forward => exact h.1
  | killForward => exact h.2
  | _ => cases harg

/-- **Unambiguous requests are told apart.** Two calls among the seven operations
that build the same request are the same operation with the same arguments,
provided no serial number contains a keyword that takes an argument as a part of
its own, no local end of a forward contains `;`, and none without `norebind`
begins with `norebind:`. The remote end, and the local end of `kill_forward`, are
arbitrary. -/
theorem command_injective {c d : HostSerialCommand.Call} (hc : Unambiguous c) (hd : Unambiguous d)
    (h : c.operation.command = d.operation.command) : c = d := by
  rw [command_eq, command_eq] at h
  obtain ⟨hserial, hkeyword, hargument⟩ :=
    joined_inj (keyword_not_mem c) (keyword_not_mem d) (not_hasPart d hc.1) (not_hasPart c hd.1)
      (List.append_cancel_left h)
  have hread := readCall_parts hc
  rw [hserial, hkeyword, hargument, readCall_parts hd] at hread
  exact (Option.some.inj hread).symm

/-- The serial number of a network device has a colon. -/
theorem command_injective_network :
    HostSerialCommand.Call.forward (ascii "10.0.0.1" ++ ascii ":5555") (ascii "tcp:1")
        (ascii "tcp:2;3") true =
      .forward (ascii "10.0.0.1:5555") (ascii "tcp:1") (ascii "tcp:2;3") true :=
  command_injective ⟨by decide, by decide, by decide⟩ ⟨by decide, by decide, by decide⟩ rfl

/-- A local end that begins with the mark asks for what `norebind` asks for. -/
theorem command_injective_fails :
    (HostSerialCommand.Call.forward (ascii "d17cdac6") (ascii "norebind:tcp:1") (ascii "tcp:2")
        false).operation.command =
      (HostSerialCommand.Call.forward (ascii "d17cdac6") (ascii "tcp:1") (ascii "tcp:2")
        true).operation.command ∧
    HostSerialCommand.Call.forward (ascii "d17cdac6") (ascii "norebind:tcp:1") (ascii "tcp:2")
        false ≠
      .forward (ascii "d17cdac6") (ascii "tcp:1") (ascii "tcp:2") true := by
  constructor
  · rfl
  · decide

end AdbClient.Guarantees.SerialRequests
