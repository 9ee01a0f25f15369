import AdbClient.Source.ReadBuffer

/-!
# device_info.cpp

The states a device can be in and the words the server's listing has for them.
-/
namespace AdbClient.Source

inductive ConnectionState where
  | kCsAny | kCsConnecting | kCsAuthorizing | kCsUnauthorized | kCsNoPerm | kCsDetached
  | kCsOffline | kCsBootloader | kCsDevice | kCsHost | kCsRecovery | kCsSideload | kCsRescue
  deriving DecidableEq, Repr

def stateToString : ConnectionState → Bytes
  | .kCsOffline => ascii "offline"
  | .kCsBootloader => ascii "bootloader"
  | .kCsDevice => ascii "device"
  | .kCsHost => ascii "host"
  | .kCsRecovery => ascii "recovery"
  | .kCsRescue => ascii "rescue"
  | .kCsNoPerm => ascii "no permissions"
  | .kCsSideload => ascii "sideload"
  | .kCsUnauthorized => ascii "unauthorized"
  | .kCsAuthorizing => ascii "authorizing"
  | .kCsConnecting => ascii "connecting"
  | _ => ascii "unknown"

/-- No text has a tab or a newline, and one has a space. -/
theorem stateToString_separators (state : ConnectionState) :
    9 ∉ stateToString state ∧ 10 ∉ stateToString state ∧
      (32 ∈ stateToString state ↔ state = .kCsNoPerm) := by
  cases state <;> decide

end AdbClient.Source
