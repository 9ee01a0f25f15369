import AdbClient.Abstract.Reply
import AdbClient.Abstract.SequentialObject

/-!
# A command object as a client of its server

One request, one answer. The server is a function from requests to answers, another
one for each connection; a call tells its caller the answer to its own request, and
what is refused is added to the object's error message. Neither threads nor messages
are left here.
-/
namespace AdbClient.Abstract
open Source Support.Transition

inductive Answer where
  | granted (content : Bytes)
  | refused (why : Bytes)
  deriving DecidableEq, Repr

namespace Answer

/-- The answer as the server sends it. -/
def bytes : Answer → Bytes
  | granted content => reply okay content
  | refused why => reply fail why

/-- A text that four digits can count and that is a string of C. -/
def Plain : Answer → Prop
  | granted content => 0 ∉ content ∧ content.length ≤ 65535
  | refused why => 0 ∉ why ∧ why.length ≤ 65535

instance : (a : Answer) → Decidable a.Plain
  | granted _ | refused _ => inferInstanceAs (Decidable (_ ∧ _))

def status : Answer → Int
  | granted _ => 0
  | refused _ => -1

/-- What an answer adds to the error message. -/
def reason : Answer → Bytes
  | granted _ => []
  | refused why => why

/-- What the parser of replies makes of an answer that is one message. -/
theorem reading_bytes {a : Answer} (h : a.Plain) : (reading a.bytes).status = a.status ∧
    (reading a.bytes).error = a.reason := by
  cases a with
  | granted content => exact ⟨by rw [bytes, reading_reply h.1 h.2]; rfl,
      by rw [bytes, reading_reply h.1 h.2]; rfl⟩
  | refused why => exact ⟨by rw [bytes, reading_refusal h.1 h.2]; rfl,
      by rw [bytes, reading_refusal h.1 h.2]; rfl⟩

end Answer

/-- The caller's string after the call. -/
def takenOver : Call → Bytes → Answer → Bytes
  | .host .getDevicesWithPath, output, .granted content => uniqueSpaces (output ++ content)
  | .host .getDevices, output, .granted content
  | .hostSerial (.listForward _), output, .granted content
  | .hostSerial (.getDevicePath _), output, .granted content
  | .hostSerial (.getSerialNo _), output, .granted content
  | .hostSerial (.getState _), output, .granted content => output ++ content
  | _, output, _ => output

/-- What the server is asked. -/
def Completed.request (i : Completed) : Bytes := i.call.call.operation.command

/-- The call has told its caller the answer, on an object with this error message. -/
structure Told (answer : Bytes → Answer) (error : Bytes) (i : Completed) : Prop where
  returned : i.session.returned = some (answer i.request).status
  output : i.session.state.output = takenOver i.call.call i.output (answer i.request)
  error : i.session.state.error = error ++ (answer i.request).reason
  version : i.call.call = .host .getVersion → ∀ digits, answer i.request = .granted digits →
    digits ≠ [] → stoi16 digits = .ok i.session.state.version

/-- The object between two calls is their number and its error message; the server of
call `n` answers by `answer n`. -/
def requestReply (answer : Nat → Bytes → Answer) : System (Nat × Bytes) Completed where
  Enabled o i := Told (answer o.1) o.2 i
  next o i := (o.1 + 1, o.2 ++ (answer o.1 i.request).reason)

/-- The error message keeps every reason. -/
theorem requestReply_error {answer : Nat → Bytes → Answer} {o o' : Nat × Bytes}
    {calls : List Completed} (h : Run (requestReply answer) (fun _ _ => True) o calls o') :
    o' = (o.1 + calls.length,
      o.2 ++ (calls.mapIdx fun k i => (answer (o.1 + k) i.request).reason).flatten) := by
  induction h with
  | nil o => simp
  | cons _ _ _ ih =>
    rw [ih]
    simp [requestReply, List.mapIdx_cons, Nat.add_comm, Nat.add_left_comm]

end AdbClient.Abstract
