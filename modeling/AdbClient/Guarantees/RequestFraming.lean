import AdbClient.Source.LocalCommand
import AdbClient.Support.Framing

/-!
# Requests on the wire

Every request leaves the client as `frame`: four or more hexadecimal digits of
its length, then its bytes. The server's side is not part of the repository; it
is stated here as the decoder that reads four digits as a length and then that
many bytes, over and over.
-/
namespace AdbClient.Guarantees.RequestFraming
open Source Support.Framing

/-- The length prefix of the client as a header of four hexadecimal digits. -/
def requestHeader : LengthHeader Byte :=
  numeralHeader hexadecimal 4 (by decide) (· % 2 ^ 32) (fun n => Nat.mod_le n _)
    (fun _ h => Nat.mod_eq_of_lt (Nat.lt_trans h (by decide)))

/-- The server's decoder. -/
def serverDecode (stream : Bytes) : Option (List Bytes) := requestHeader.decodeAll stream

theorem requestHeader_frame : requestHeader.frame = frame := rfl

theorem requestHeader_bound : requestHeader.bound = 65536 := rfl

/-- The server recovers the requests from the concatenated frames exactly when
none of them is longer than 65535 bytes: a longer one prints five digits or more,
of which the server takes four. -/
theorem serverDecode_frames_iff (requests : List Bytes) :
    serverDecode (requests.flatMap frame) = some requests ↔
      ∀ r ∈ requests, r.length ≤ 65535 := by
  have h := requestHeader.decodeAll_frames_iff requests
  rw [requestHeader_frame, requestHeader_bound] at h
  simpa only [serverDecode, Nat.lt_succ_iff] using h

/-- The lengths a client can send. -/
theorem serverDecode_frames {requests : List Bytes} (h : ∀ r ∈ requests, r.length ≤ 65535) :
    serverDecode (requests.flatMap frame) = some requests := by
  rw [serverDecode, ← requestHeader_frame, requestHeader.decodeAll_frames_iff]
  intro r hr
  exact Nat.lt_succ_of_le (h r hr)

/-- The digits of a printed length end where a request starts that begins with a
byte other than a hexadecimal digit. -/
theorem takeWhile_frame {s : Bytes} {b : Byte} {rest : Bytes} (hs : s = b :: rest)
    (hb : hexDigit b = none) :
    (frame s).takeWhile (fun c => (hexDigit c).isSome) = stringPrintf04x s.length := by
  have hdigits : ∀ c ∈ stringPrintf04x s.length, (hexDigit c).isSome :=
    fun c hc => (mem_hexadecimal_print hc).1
  rw [frame, List.takeWhile_append_of_pos hdigits, hs, List.takeWhile_cons_of_neg (by simp [hb]),
    List.append_nil]

/-- Two such requests with the same frame are the same request. -/
theorem frame_injective {s t : Bytes} {b d : Byte} {s' t' : Bytes} (hs : s = b :: s')
    (hb : hexDigit b = none) (ht : t = d :: t') (hd : hexDigit d = none)
    (h : frame s = frame t) : s = t := by
  have hfront := congrArg (List.takeWhile fun c => (hexDigit c).isSome) h
  rw [takeWhile_frame hs hb, takeWhile_frame ht hd] at hfront
  rw [frame, frame, hfront] at h
  exact List.append_cancel_left h

end AdbClient.Guarantees.RequestFraming
