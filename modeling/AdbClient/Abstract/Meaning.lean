import AdbClient.Source.Operations
import AdbClient.Abstract.Reading

/-!
# What one call makes of the messages it receives

An abstract message callback is a step on the call's state and what it sends, as
functions of the message alone: no buffer, no memory of earlier messages. Every
operation of the source refines its abstract callback, first for one message
(`onMessage_deliver`), then for a whole connection (`call_eq`).
-/
namespace AdbClient.Abstract
open Source

structure Meaning where
  next : CallState → Bytes → Except Fault CallState
  sends : Bytes → List Bytes

/-- Status and error message are taken over from every reply alike. -/
def takeReading (s : CallState) (m : Bytes) : CallState :=
  { s with status := (reading m).status, error := s.error ++ (reading m).error }

def appendResult (s : CallState) (m : Bytes) : CallState :=
  { takeReading s m with output := s.output ++ (reading m).result }

/-- What the callbacks of the two host classes do with a reply. -/
def hostNext : HostCommand.Call → CallState → Bytes → Except Fault CallState
  | .getVersion, s, m => do
      let version ←
        if (reading m).status ≠ -1 ∧ (reading m).result ≠ [] then stoi16 (reading m).result
        else pure s.version
      return { takeReading s m with version }
  | .getDevices, s, m => .ok (appendResult s m)
  | .getDevicesWithPath, s, m =>
      let output := s.output ++ (reading m).result
      .ok { takeReading s m with
        output := if (reading m).status ≠ -1 then uniqueSpaces output else output }
  | .trackDevices, s, m => .ok { takeReading s m with trackedDevice := (reading m).result }
  | .kill, s, m | .connect _ _, s, m | .disconnect _ _, s, m => .ok (takeReading s m)

def hostSerialNext : HostSerialCommand.Call → CallState → Bytes → CallState
  | .listForward _ | .getDevicePath _ | .getSerialNo _ | .getState _ => appendResult
  | .forward _ _ _ _ | .killForward _ _ | .killForwardAll _ => takeReading

/-- The text `list_reverse` appends for a message. -/
def listed (m : Bytes) : Bytes :=
  if m = fail then []
  else if okay <:+: text m then text (m.drop 8)
  else text (m.drop 4)

/-- Whether `shell` takes the message for output. -/
def ShellOutput (m : Bytes) : Prop := m ≠ fail ∧ ¬ okay <+: m

instance (m : Bytes) : Decidable (ShellOutput m) := inferInstanceAs (Decidable (_ ∧ _))

def deviceNext : LocalCommand.Call → CallState → Bytes → CallState
  | .shell _ _, s, m =>
      { s with
        status := transportStatus m
        shellData := if ShellOutput m then text m else s.shellData }
  | .listReverse _, s, m =>
      { s with status := transportStatus m, output := s.output ++ listed m }
  | .screencap _, s, m =>
      if m.length = 4 then
        if m = okay then { s with status := 0 }
        else if m ≠ fail then { s with status := -1 }
        else s
      else { s with output := s.output ++ m }
  | _, s, m => { s with status := transportStatus m }

def meaning : Call → Meaning
  | .host c => ⟨hostNext c, fun _ => []⟩
  | .hostSerial c => ⟨fun s m => .ok (hostSerialNext c s m), fun _ => []⟩
  | .device c => ⟨fun s m => .ok (deviceNext c s m), transportReply c.operation.cmd⟩

/-- Only the tracking callback wakes the waiting thread by itself. -/
def wakes : Call → Bool
  | .host .trackDevices => true
  | _ => false

section OneMessage
variable {N : Nat} {m : Bytes}

theorem host_onMessage (hN : 8 < N) (h : m.length < N) (c : HostCommand.Call) (s : CallState) :
    c.operation.onMessage s (deliver (zeroed N) m) =
      (hostNext c s m).map fun s' => ⟨s', [], zeroed N, wakes (.host c)⟩ := by
  have hread := readProtocolString_deliver hN h
  have hclear := memset_deliver h.le
  cases c with
  | getVersion =>
    simp only [HostCommand.Call.operation, HostCommand.getVersion, HostCommand.hostOperation,
      hread, hclear, hostNext, takeReading, bind, Except.bind, pure, Except.pure, List.nil_append]
    split
    · cases stoi16 (reading m).result <;> rfl
    · rfl
  | _ =>
    simp only [HostCommand.Call.operation, HostCommand.getDevices, HostCommand.getDevicesWithPath,
      HostCommand.kill, HostCommand.trackDevices, HostCommand.connect, HostCommand.disconnect,
      HostCommand.hostOperation, readToOutput, readAndDiscard, hread, hclear, hostNext,
      appendResult, takeReading, bind, Except.bind, pure, Except.pure, List.nil_append]
    rfl

theorem hostSerial_onMessage (hN : 8 < N) (h : m.length < N) (c : HostSerialCommand.Call)
    (s : CallState) :
    c.operation.onMessage s (deliver (zeroed N) m) =
      .ok ⟨hostSerialNext c s m, [], zeroed N, false⟩ := by
  have hread := readProtocolString_deliver hN h
  have hclear := memset_deliver h.le
  cases c <;>
    simp only [HostSerialCommand.Call.operation, HostSerialCommand.forward,
      HostSerialCommand.listForward, HostSerialCommand.killForward,
      HostSerialCommand.killForwardAll, HostSerialCommand.getDevicePath,
      HostSerialCommand.getSerialNo, HostSerialCommand.getState,
      HostSerialCommand.serialOperation, readToOutput, readAndDiscard, hread, hclear,
      hostSerialNext, appendResult, takeReading, bind, Except.bind, pure, Except.pure]

theorem respondOnly_deliver (h : m.length < N) (cmd : Bytes) (s : CallState) :
    LocalCommand.respondOnly cmd s (deliver (zeroed N) m) =
      .ok ⟨{ s with status := transportStatus m }, transportReply cmd m, zeroed N, false⟩ := by
  simp only [LocalCommand.respondOnly, respondTransportCommand_deliver h, memset_deliver h.le,
    bind, Except.bind, pure, Except.pure]

theorem shell_onMessage (h : m.length < N) (serial command : Bytes) (s : CallState) :
    (LocalCommand.shell serial command).onMessage s (deliver (zeroed N) m) =
      .ok ⟨deviceNext (.shell serial command) s m,
        transportReply (LocalCommand.shell serial command).cmd m, zeroed N, false⟩ := by
  have htext := cStringAt_deliver (k := 0) h (by omega)
  simp only [LocalCommand.shell, LocalCommand.localOperation, respondTransportCommand_deliver h,
    memset_deliver h.le, strncmp_okay h, htext, transportStatus_ne_iff, deviceNext, ShellOutput,
    bind, Except.bind, pure, Except.pure, List.drop_zero]
  by_cases hf : m = fail
  · simp [hf]
  · by_cases ho : okay <+: m
    · simp [hf, ho]
    · simp [hf, ho]

theorem listReverse_onMessage (hN : 8 < N) (h : m.length < N) (serial : Bytes) (s : CallState) :
    (LocalCommand.listReverse serial).onMessage s (deliver (zeroed N) m) =
      .ok ⟨deviceNext (.listReverse serial) s m,
        transportReply (LocalCommand.listReverse serial).cmd m, zeroed N, false⟩ := by
  have h4 := cStringAt_deliver (k := 4) h (by omega)
  have h8 := cStringAt_deliver (k := 8) h hN
  simp only [LocalCommand.listReverse, LocalCommand.localOperation,
    respondTransportCommand_deliver h, memset_deliver h.le, strstr_deliver h, h4, h8,
    transportStatus_ne_iff, deviceNext, listed, bind, Except.bind, pure, Except.pure]
  by_cases hf : m = fail
  · simp [hf]
  · by_cases ho : okay <:+: text m
    · simp [hf, ho]
    · simp [hf, ho]

/-- A text of four bytes up to its terminator is the whole message. -/
theorem text_eq_literal_iff {lit : Bytes} (hz : 0 ∉ lit) (hlen : lit.length = m.length) :
    text m = lit ↔ m = lit := by
  constructor
  · intro ht
    have hpre : lit <+: m := ht ▸ List.takeWhile_prefix _
    exact (hpre.eq_of_length hlen).symm
  · rintro rfl
    exact text_eq_self hz

theorem screencap_onMessage (h : m.length < N) (serial : Bytes) (s : CallState) :
    (LocalCommand.screencap serial).onMessage s (deliver (zeroed N) m) =
      .ok ⟨deviceNext (.screencap serial) s m,
        transportReply (LocalCommand.screencap serial).cmd m, zeroed N, false⟩ := by
  simp only [LocalCommand.screencap, LocalCommand.localOperation, deliver_size, deliver_payload,
    memset_deliver h.le, strcmp_deliver h zero_not_mem_okay, strcmp_deliver h zero_not_mem_fail,
    deviceNext, transportReply, bind, Except.bind, pure, Except.pure]
  by_cases hfour : m.length = 4
  · have hokay := text_eq_literal_iff zero_not_mem_okay (okay_length.trans hfour.symm)
    have hfail := text_eq_literal_iff zero_not_mem_fail (fail_length.trans hfour.symm)
    simp only [hfour, hokay, hfail]
    by_cases ho : m = okay
    · simp [ho]
    · by_cases hf : m = fail
      · simp [hf, Ne.symm okay_ne_fail]
      · simp [ho, hf]
  · have ho : m ≠ okay := by
      rintro rfl
      exact hfour okay_length
    simp [hfour, ho]

theorem device_onMessage (hN : 8 < N) (h : m.length < N) (c : LocalCommand.Call)
    (s : CallState) :
    c.operation.onMessage s (deliver (zeroed N) m) =
      .ok ⟨deviceNext c s m, transportReply c.operation.cmd m, zeroed N, false⟩ := by
  cases c with
  | shell serial command => exact shell_onMessage h serial command s
  | screencap serial => exact screencap_onMessage h serial s
  | listReverse serial => exact listReverse_onMessage hN h serial s
  | _ => exact respondOnly_deliver h _ s

/-- One message: the callback of the source, run on a zeroed read buffer that
holds the message, does what its meaning says and leaves the buffer zeroed. -/
theorem onMessage_deliver (hN : 8 < N) (h : m.length < N) (c : Call) (s : CallState) :
    c.operation.onMessage s (deliver (zeroed N) m) =
      ((meaning c).next s m).map fun s' => ⟨s', (meaning c).sends m, zeroed N, wakes c⟩ := by
  cases c with
  | host c => exact host_onMessage hN h c s
  | hostSerial c => exact hostSerial_onMessage hN h c s
  | device c => exact device_onMessage hN h c s

end OneMessage
end AdbClient.Abstract
