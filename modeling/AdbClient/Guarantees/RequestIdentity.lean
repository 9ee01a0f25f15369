import AdbClient.Guarantees.SerialRequests
import AdbClient.Source.Operations
import AdbClient.Support.Keywords
import AdbClient.Support.Numeral

/-!
# What the requests of a call tell the server

Every request of the three classes is a keyword with an argument pasted behind it,
and no keyword with an argument begins another one. What several arguments make up
together can be cut again at another separator: an address, the ends of a forward or
a reverse with the mark in front, and behind `host-serial:` everything, where an
operation with an argument can be read as another one on a longer serial number.
These, and `screencap`, which is a shell with its command, are the only calls that
cannot be told apart.
-/
namespace AdbClient.Guarantees.RequestIdentity
open Source Support.Keywords Support.Separator SerialRequests

/-- What a connection begins with. -/
inductive FirstKeyword where
  | version | devices | devicesWithPath | kill | trackDevices | connect | disconnect | hostSerial
  | transport
  deriving DecidableEq, Repr

def FirstKeyword.word : FirstKeyword → Bytes
  | version => ascii "host:version"
  | devices => ascii "host:devices"
  | devicesWithPath => ascii "host:devices-l"
  | kill => ascii "host:kill"
  | trackDevices => ascii "host:track-devices"
  | connect => ascii "host:connect:"
  | disconnect => ascii "host:disconnect:"
  | hostSerial => ascii "host-serial:"
  | transport => ascii "host:transport:"

def FirstKeyword.takes : FirstKeyword → Bool
  | connect | disconnect | hostSerial | transport => true
  | version | devices | devicesWithPath | kill | trackDevices => false

def firstVocabulary : Vocabulary FirstKeyword Byte where
  word := FirstKeyword.word
  takes := FirstKeyword.takes
  free k l := by cases k <;> cases l <;> decide
  distinct k l := by cases k <;> cases l <;> decide

/-- The services of a device. -/
inductive ServiceKeyword where
  | shell | sync | tcpip | usb | root | reverse | listReverse | killReverse | killReverseAll
  deriving DecidableEq, Repr

def ServiceKeyword.word : ServiceKeyword → Bytes
  | shell => ascii "shell:"
  | sync => ascii "sync:"
  | tcpip => ascii "tcpip:"
  | usb => ascii "usb:"
  | root => ascii "root:"
  | reverse => ascii "reverse:forward:"
  | listReverse => ascii "reverse:list-forward"
  | killReverse => ascii "reverse:killforward:"
  | killReverseAll => ascii "reverse:killforward-all"

def ServiceKeyword.takes : ServiceKeyword → Bool
  | shell | tcpip | reverse | killReverse => true
  | sync | usb | root | listReverse | killReverseAll => false

def serviceVocabulary : Vocabulary ServiceKeyword Byte where
  word := ServiceKeyword.word
  takes := ServiceKeyword.takes
  free k l := by cases k <;> cases l <;> decide
  distinct k l := by cases k <;> cases l <;> decide

/-- `host:port`. -/
def address (host port : Bytes) : Bytes := host ++ 58 :: port

/-- A local end with the mark in front of it, or without. -/
def marked (localSpec : Bytes) (norebind : Bool) : Bytes :=
  if norebind then ascii "norebind:" ++ localSpec else localSpec

/-- Both ends of a reverse and the mark, as they are pasted together. -/
def ends (localSpec remote : Bytes) (norebind : Bool) : Bytes :=
  marked localSpec norebind ++ 59 :: remote

/-- What `screencap` runs on the device. -/
def screencapCommand : Bytes := ascii "/system/bin/screencap -p"

def firstRequest : Call → Request firstVocabulary
  | .host .getVersion => ⟨.version, none, rfl⟩
  | .host .getDevices => ⟨.devices, none, rfl⟩
  | .host .getDevicesWithPath => ⟨.devicesWithPath, none, rfl⟩
  | .host .kill => ⟨.kill, none, rfl⟩
  | .host .trackDevices => ⟨.trackDevices, none, rfl⟩
  | .host (.connect host port) => ⟨.connect, some (address host port), rfl⟩
  | .host (.disconnect host port) => ⟨.disconnect, some (address host port), rfl⟩
  | .hostSerial c => ⟨.hostSerial, some (c.operation.command.drop 12), rfl⟩
  | .device c => ⟨.transport, some c.serial, rfl⟩

def serviceRequest : LocalCommand.Call → Request serviceVocabulary
  | .shell _ command => ⟨.shell, some command, rfl⟩
  | .sync _ => ⟨.sync, none, rfl⟩
  | .screencap _ => ⟨.shell, some screencapCommand, rfl⟩
  | .tcpip _ port => ⟨.tcpip, some (formatUnsigned port.toNat), rfl⟩
  | .usb _ => ⟨.usb, none, rfl⟩
  | .root _ => ⟨.root, none, rfl⟩
  | .reverse _ localSpec remote norebind => ⟨.reverse, some (ends localSpec remote norebind), rfl⟩
  | .listReverse _ => ⟨.listReverse, none, rfl⟩
  | .killReverse _ localSpec => ⟨.killReverse, some localSpec, rfl⟩
  | .killReverseAll _ => ⟨.killReverseAll, none, rfl⟩

theorem command_text (c : Call) : c.operation.command = (firstRequest c).text := by
  cases c with
  | host c =>
    cases c with
    | connect host port =>
      simp [Call.operation, HostCommand.Call.operation, HostCommand.connect,
        HostCommand.hostOperation, firstRequest, Request.text, firstVocabulary, FirstKeyword.word,
        address, ascii]
    | disconnect host port =>
      simp [Call.operation, HostCommand.Call.operation, HostCommand.disconnect,
        HostCommand.hostOperation, firstRequest, Request.text, firstVocabulary, FirstKeyword.word,
        address, ascii]
    | _ => rfl
  | hostSerial c =>
    have hcommand := SerialRequests.command_eq c
    have hlength : (ascii "host-serial:").length = 12 := rfl
    simp only [Call.operation, firstRequest, Request.text, Option.getD_some]
    rw [hcommand, ← hlength, List.drop_left]
    rfl
  | device c => cases c <;> rfl

theorem cmd_text (c : LocalCommand.Call) : c.operation.cmd = (serviceRequest c).text := by
  cases c with
  | reverse serial localSpec remote norebind =>
    cases norebind <;>
      simp [LocalCommand.Call.operation, LocalCommand.reverse, LocalCommand.localOperation,
        serviceRequest, Request.text, serviceVocabulary, ServiceKeyword.word, ends, marked, ascii]
  | _ => rfl

/-- What the server is sent for a call it acknowledges. -/
def requestsOf : Call → Bytes × Option Bytes
  | .host c => (c.operation.command, none)
  | .hostSerial c => (c.operation.command, none)
  | .device c => (c.operation.command, some c.operation.cmd)

/-- The second ends are the first ones read otherwise: with the mark as a part of the
local end, or cut at a later `;`. -/
def RereadEnds (localSpec remote : Bytes) (norebind : Bool) (localSpec' remote' : Bytes)
    (norebind' : Bool) : Prop :=
  (norebind = true ∧ norebind' = false ∧ localSpec' = ascii "norebind:" ++ localSpec ∧
      remote = remote') ∨
    Shifted 59 (marked localSpec norebind) remote (marked localSpec' norebind') remote'

/-- The argument of `c` ends in a `:` and the request of `d`, or is that request, and
the serial number of `d` is all of `c` that is in front. -/
def Absorbs (c d : HostSerialCommand.Call) : Prop :=
  ∃ a front, argument c = some a ∧ 58 :: a = front ++ 58 :: request 58 (keyword d) (argument d) ∧
    serial d = serial c ++ 58 :: (keyword c ++ front)

/-- The second call is the first one read otherwise. -/
inductive Reread : Call → Call → Prop
  | connect {host port host' port' : Bytes} (h : Shifted 58 host port host' port') :
      Reread (.host (.connect host port)) (.host (.connect host' port'))
  | disconnect {host port host' port' : Bytes} (h : Shifted 58 host port host' port') :
      Reread (.host (.disconnect host port)) (.host (.disconnect host' port'))
  | forward (serial : Bytes) {localSpec remote localSpec' remote' : Bytes}
      {norebind norebind' : Bool}
      (h : RereadEnds localSpec remote norebind localSpec' remote' norebind') :
      Reread (.hostSerial (.forward serial localSpec remote norebind))
        (.hostSerial (.forward serial localSpec' remote' norebind'))
  | absorbed {c d : HostSerialCommand.Call} (h : Absorbs c d) :
      Reread (.hostSerial c) (.hostSerial d)
  | reverse (serial : Bytes) {localSpec remote localSpec' remote' : Bytes}
      {norebind norebind' : Bool}
      (h : RereadEnds localSpec remote norebind localSpec' remote' norebind') :
      Reread (.device (.reverse serial localSpec remote norebind))
        (.device (.reverse serial localSpec' remote' norebind'))
  | screencap (serial : Bytes) :
      Reread (.device (.shell serial screencapCommand)) (.device (.screencap serial))

/-- Calls that are sent as the same requests. -/
def Alike (c d : Call) : Prop := c = d ∨ Reread c d ∨ Reread d c

/-- A forward for one device, and the state of another that does not exist. -/
example :
    Reread (.hostSerial (.forward (ascii "a") (ascii "x") (ascii "y:get-state") false))
      (.hostSerial (.getState (ascii "a:forward:x;y"))) :=
  .absorbed ⟨_, ascii ":x;y", rfl, rfl, rfl⟩

theorem requestsOf_first (c : Call) : (requestsOf c).1 = (firstRequest c).text := by
  rw [← command_text]
  cases c <;> rfl

theorem formatUnsigned_inj {m n : Nat} (h : formatUnsigned m = formatUnsigned n) : m = n := by
  have hparse := congrArg decimal.parse h
  rw [formatUnsigned, formatUnsigned, decimal.parse_print, decimal.parse_print] at hparse
  exact Option.some.inj hparse

section Reread
variable {localSpec remote localSpec' remote' : Bytes} {norebind norebind' : Bool}

theorem marked_eq_iff :
    marked localSpec norebind = marked localSpec' norebind' ↔
      (localSpec = localSpec' ∧ norebind = norebind') ∨
        (norebind = true ∧ norebind' = false ∧ localSpec' = ascii "norebind:" ++ localSpec) ∨
        (norebind' = true ∧ norebind = false ∧ localSpec = ascii "norebind:" ++ localSpec') := by
  cases norebind <;> cases norebind' <;> simp [marked, eq_comm]

/-- Ends are the same text when they are the same, or one is the other read otherwise. -/
theorem ends_eq_iff :
    ends localSpec remote norebind = ends localSpec' remote' norebind' ↔
      (localSpec = localSpec' ∧ remote = remote' ∧ norebind = norebind') ∨
        RereadEnds localSpec remote norebind localSpec' remote' norebind' ∨
        RereadEnds localSpec' remote' norebind' localSpec remote norebind := by
  unfold ends RereadEnds
  rw [append_cons_eq_iff, marked_eq_iff, eq_comm (a := remote')]
  tauto

/-- Where ends that are read otherwise make another call, those of one text do not. -/
theorem alike_ends {f : Bytes → Bytes → Bool → Call}
    (hf : ∀ {l r n l' r' n'}, RereadEnds l r n l' r' n' → Reread (f l r n) (f l' r' n'))
    (h : ends localSpec remote norebind = ends localSpec' remote' norebind') :
    Alike (f localSpec remote norebind) (f localSpec' remote' norebind') := by
  rcases ends_eq_iff.mp h with ⟨rfl, rfl, rfl⟩ | hread | hread
  · exact .inl rfl
  · exact .inr (.inl (hf hread))
  · exact .inr (.inr (hf hread))

theorem alike_address {host port host' port' : Bytes} {f : Bytes → Bytes → Call}
    (hf : ∀ {a b a' b'}, Shifted 58 a b a' b' → Reread (f a b) (f a' b'))
    (h : address host port = address host' port') : Alike (f host port) (f host' port') := by
  rcases append_cons_eq_iff.mp h with ⟨rfl, rfl⟩ | hread | hread
  · exact .inl rfl
  · exact .inr (.inl (hf hread))
  · exact .inr (.inr (hf hread))

/-- A call read otherwise is sent as the same requests. -/
theorem requestsOf_reread {c d : Call} (h : Reread c d) : requestsOf c = requestsOf d := by
  cases h with
  | connect h | disconnect h =>
    have haddress := append_cons_eq_iff.mpr (.inr (.inl h))
    refine Prod.ext ?_ rfl
    rw [requestsOf_first, requestsOf_first, request_text_eq_iff]
    exact ⟨rfl, congrArg some haddress⟩
  | forward serial h =>
    have hends := ends_eq_iff.mpr (.inr (.inl h))
    refine Prod.ext ?_ rfl
    change (HostSerialCommand.Call.forward serial _ _ _).operation.command =
      (HostSerialCommand.Call.forward serial _ _ _).operation.command
    rw [command_eq, command_eq]
    exact congrArg (fun e => ascii "host-serial:" ++
      (serial ++ 58 :: request 58 (ascii "forward") (some e))) hends
  | @absorbed c d h =>
    have hshift := (shifted_request_iff (keyword_not_mem c)).mpr h
    refine Prod.ext ?_ rfl
    change c.operation.command = d.operation.command
    rw [command_eq, command_eq, append_cons_eq_iff.mpr (.inr (.inl hshift))]
  | reverse serial h =>
    have hends := ends_eq_iff.mpr (.inr (.inl h))
    refine Prod.ext rfl (congrArg some ?_)
    rw [cmd_text, cmd_text, request_text_eq_iff]
    exact ⟨rfl, congrArg some hends⟩
  | screencap => rfl

end Reread

/-- The first request tells the class. -/
theorem hostSerial_keyword_ne (c : HostCommand.Call) :
    (firstRequest (.host c)).keyword ≠ .hostSerial := by
  cases c <;> simp [firstRequest]

theorem alike_host {c d : HostCommand.Call}
    (hkeyword : (firstRequest (.host c)).keyword = (firstRequest (.host d)).keyword)
    (hargument : (firstRequest (.host c)).argument = (firstRequest (.host d)).argument) :
    Alike (.host c) (.host d) := by
  cases c with
  | connect host port =>
    cases d with
    | connect host' port' => exact alike_address .connect (Option.some.inj hargument)
    | _ => cases hkeyword
  | disconnect host port =>
    cases d with
    | disconnect host' port' => exact alike_address .disconnect (Option.some.inj hargument)
    | _ => cases hkeyword
  | getVersion | getDevices | getDevicesWithPath | kill | trackDevices =>
    cases d <;> first | exact .inl rfl | cases hkeyword

/-- Calls for a serial number whose three parts are the same. -/
theorem alike_parts {c d : HostSerialCommand.Call} (hserial : serial c = serial d)
    (hkeyword : keyword c = keyword d) (hargument : argument c = argument d) :
    Alike (.hostSerial c) (.hostSerial d) := by
  cases c with
  | forward serial localSpec remote norebind =>
    cases d with
    | forward serial' localSpec' remote' norebind' =>
      obtain rfl : serial = serial' := hserial
      exact alike_ends (.forward serial) (Option.some.inj hargument)
    | _ => simp [keyword, ascii] at hkeyword
  | killForward serial localSpec =>
    cases d with
    | killForward serial' localSpec' =>
      obtain rfl : serial = serial' := hserial
      obtain rfl : localSpec = localSpec' := Option.some.inj hargument
      exact .inl rfl
    | _ => simp [keyword, ascii] at hkeyword
  | listForward serial | killForwardAll serial | getDevicePath serial | getSerialNo serial
  | getState serial =>
    cases d with
    | listForward serial' | killForwardAll serial' | getDevicePath serial' | getSerialNo serial'
    | getState serial' =>
      first
        | simp [keyword, ascii] at hkeyword; done
        | obtain rfl : serial = serial' := hserial
          exact .inl rfl
    | _ => simp [keyword, ascii] at hkeyword

/-- Behind `host-serial:` the serial numbers end at the same separator, or the one
operation is in the argument of the other. -/
theorem alike_hostSerial {c d : HostSerialCommand.Call}
    (h : c.operation.command = d.operation.command) : Alike (.hostSerial c) (.hostSerial d) := by
  rw [command_eq, command_eq] at h
  have hcuts := append_cons_eq_iff.mp (List.append_cancel_left h)
  rcases hcuts with ⟨hserial, hrequest⟩ | hshift | hshift
  · obtain ⟨hkeyword, hargument⟩ := request_inj (keyword_not_mem c) (keyword_not_mem d) hrequest
    exact alike_parts hserial hkeyword hargument
  · exact .inr (.inl (.absorbed ((shifted_request_iff (keyword_not_mem c)).mp hshift)))
  · exact .inr (.inr (.absorbed ((shifted_request_iff (keyword_not_mem d)).mp hshift)))

theorem alike_device {c d : LocalCommand.Call} (hserial : c.serial = d.serial)
    (hkeyword : (serviceRequest c).keyword = (serviceRequest d).keyword)
    (hargument : (serviceRequest c).argument = (serviceRequest d).argument) :
    Alike (.device c) (.device d) := by
  cases c with
  | shell serial command =>
    cases d with
    | shell serial' command' =>
      obtain rfl : serial = serial' := hserial
      obtain rfl : command = command' := Option.some.inj hargument
      exact .inl rfl
    | screencap serial' =>
      obtain rfl : serial = serial' := hserial
      obtain rfl : command = screencapCommand := Option.some.inj hargument
      exact .inr (.inl (.screencap serial))
    | _ => cases hkeyword
  | screencap serial =>
    cases d with
    | shell serial' command' =>
      obtain rfl : serial = serial' := hserial
      obtain rfl : screencapCommand = command' := Option.some.inj hargument
      exact .inr (.inr (.screencap serial))
    | screencap serial' =>
      obtain rfl : serial = serial' := hserial
      exact .inl rfl
    | _ => cases hkeyword
  | tcpip serial port =>
    cases d with
    | tcpip serial' port' =>
      obtain rfl : serial = serial' := hserial
      have hport := formatUnsigned_inj (Option.some.inj hargument)
      obtain rfl : port = port' := UInt32.toNat_inj.mp hport
      exact .inl rfl
    | _ => cases hkeyword
  | reverse serial localSpec remote norebind =>
    cases d with
    | reverse serial' localSpec' remote' norebind' =>
      obtain rfl : serial = serial' := hserial
      exact alike_ends (.reverse serial) (Option.some.inj hargument)
    | _ => cases hkeyword
  | killReverse serial localSpec =>
    cases d with
    | killReverse serial' localSpec' =>
      obtain rfl : serial = serial' := hserial
      obtain rfl : localSpec = localSpec' := Option.some.inj hargument
      exact .inl rfl
    | _ => cases hkeyword
  | sync serial | usb serial | root serial | listReverse serial | killReverseAll serial =>
    cases d with
    | sync serial' | usb serial' | root serial' | listReverse serial' | killReverseAll serial' =>
      first
        | cases hkeyword; done
        | obtain rfl : serial = serial' := hserial
          exact .inl rfl
    | _ => cases hkeyword

/-- **What the server can tell apart.** Two calls of any of the operations are sent
as the same requests if and only if they are the same call or one is the other read
otherwise: an address, or the ends of a forward or a reverse, cut at another separator
or with the mark as a part of the local end; an operation on a serial number that
takes in the front of a forward or a `kill_forward`, and is the rest of its argument;
`screencap`, and the shell that runs its command. -/
theorem requestsOf_eq_iff (c d : Call) :
    requestsOf c = requestsOf d ↔ c = d ∨ Reread c d ∨ Reread d c := by
  constructor
  · intro h
    have hfirst := congrArg Prod.fst h
    have hservice := congrArg Prod.snd h
    rw [requestsOf_first, requestsOf_first, request_text_eq_iff] at hfirst
    obtain ⟨hkeyword, hargument⟩ := hfirst
    cases c with
    | host c =>
      cases d with
      | host d => exact alike_host hkeyword hargument
      | hostSerial d => exact absurd hkeyword (hostSerial_keyword_ne c)
      | device d => cases hservice
    | hostSerial c =>
      cases d with
      | host d => exact absurd hkeyword.symm (hostSerial_keyword_ne d)
      | hostSerial d => exact alike_hostSerial (congrArg Prod.fst h)
      | device d => cases hservice
    | device c =>
      cases d with
      | host d | hostSerial d => cases hservice
      | device d =>
        have hcmd : c.operation.cmd = d.operation.cmd := Option.some.inj hservice
        rw [cmd_text, cmd_text, request_text_eq_iff] at hcmd
        exact alike_device (Option.some.inj hargument) hcmd.1 hcmd.2
  · rintro (rfl | hread | hread)
    · rfl
    · exact requestsOf_reread hread
    · exact (requestsOf_reread hread).symm

end AdbClient.Guarantees.RequestIdentity
