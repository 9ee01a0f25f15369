import AdbClient.Abstract.RequestReply
import AdbClient.Guarantees.ConnectionWire

/-!
# Each caller gets the answer to its own request

The whole way of a host operation: two threads, a connection of its own, a frame the
server decodes, a reply the callback parses. In every interleaving the calls that
return are calls of a client that asks a server and is told the answer, as long as a
reply comes as one message; and the error message of the object is everything the
server ever refused it with.
-/
namespace AdbClient.Guarantees.Agreement
open Source Abstract Support.Framing Support.Transition Interleaving RequestFraming ConnectionWire

/-- On the connection of the call the server has answered the one request it read, in
one message. The request is short enough to be read. -/
structure Served (answer : Bytes → Answer) (i : Completed) : Prop where
  onHost : i.call.call.OnHost
  short : i.request.length ≤ 65535
  answered : ∃ r, serverDecode i.session.wire = some [r] ∧
    received i.session = [(answer r).bytes]

section OneCall
variable {N : Nat} {answer : Bytes → Answer} {i : Completed} {o : Members}

/-- The server has read the request of the call and nothing else. -/
theorem served_own (hN : 8 < N) (h : Served answer i) {a : Attempt} (hfit : a.Fits N)
    (hattempt : attempt i.call.call.operation N (i.entry o) a = .ok i.session) :
    a = .served [(answer i.request).bytes] := by
  obtain ⟨r, hdecode, hreceived⟩ := h.answered
  have hcarries := carries_attempt hN hfit hattempt
  have hmessages : messages a = [(answer r).bytes] := hcarries.received.symm.trans hreceived
  cases a with
  | refused => cases hmessages
  | served msgs =>
    have hservices : services i.call.call msgs = [] := by
      cases hcall : i.call.call with
      | device c => exact (hcall ▸ h.onHost).elim
      | host c | hostSerial c => rfl
    have hrequested : requested i.call.call (.served msgs) = [i.request] := by
      rw [requested, hservices]
      rfl
    have hshort : ∀ r ∈ requested i.call.call (.served msgs), r.length ≤ 65535 := by
      rw [hrequested]
      simpa using h.short
    have hown := (serverDecode_carries hcarries).mpr hshort
    rw [hrequested, hdecode] at hown
    obtain rfl : r = i.request := by simpa using hown
    exact congrArg Attempt.served hmessages

theorem takeReading_output (s : CallState) (m : Bytes) : (takeReading s m).output = s.output :=
  rfl

/-- A text is appended, a refusal is not. -/
theorem appendResult_output {a : Answer} (ha : a.Plain) (s : CallState) :
    (appendResult s a.bytes).output =
      match a with
      | .granted content => s.output ++ content
      | .refused _ => s.output := by
  cases a with
  | granted content => rw [appendResult, Answer.bytes, reading_reply ha.1 ha.2]
  | refused why => rw [appendResult, Answer.bytes, reading_refusal ha.1 ha.2, List.append_nil]

/-- What becomes of the string the caller has handed in. -/
theorem next_takenOver {c : Call} {s t : CallState} {a : Answer} (hc : c.OnHost)
    (hwaits : c.Waits) (ha : a.Plain) (h : (meaning c).next s a.bytes = .ok t) :
    t.output = takenOver c s.output a := by
  cases c with
  | device c => exact hc.elim
  | hostSerial c =>
    have ht : hostSerialNext c s a.bytes = t := by simpa only [meaning, Except.ok.injEq] using h
    subst ht
    cases c with
    | listForward serial | getDevicePath serial | getSerialNo serial | getState serial =>
      rw [hostSerialNext, appendResult_output ha]
      cases a <;> rfl
    | forward serial localSpec remote norebind | killForward serial localSpec
    | killForwardAll serial =>
      rw [hostSerialNext, takeReading_output]
      cases a <;> rfl
  | host c =>
    cases c with
    | trackDevices => exact hwaits.elim
    | getVersion =>
      simp only [meaning, hostNext] at h
      have ht : t.output = s.output := by
        split at h
        · obtain ⟨version, -, h⟩ := Support.Stream.bind_eq_ok h
          cases h
          rfl
        · cases h
          rfl
      rw [ht]
      cases a <;> rfl
    | getDevices =>
      have ht : appendResult s a.bytes = t := by
        simpa only [meaning, hostNext, Except.ok.injEq] using h
      subst ht
      rw [appendResult_output ha]
      cases a <;> rfl
    | getDevicesWithPath =>
      simp only [meaning, hostNext, Except.ok.injEq] at h
      subst h
      cases a with
      | granted content => simp [Answer.bytes, reading_reply ha.1 ha.2, takenOver]
      | refused why => simp [Answer.bytes, reading_refusal ha.1 ha.2, takenOver]
    | kill | connect host port | disconnect host port =>
      have ht : takeReading s a.bytes = t := by
        simpa only [meaning, hostNext, Except.ok.injEq] using h
      subst ht
      rw [takeReading_output]
      cases a <;> rfl

theorem next_version {s t : CallState} {digits : Bytes} (hdigits : digits ≠ [])
    (ha : (Answer.granted digits).Plain)
    (h : (meaning (.host .getVersion)).next s (Answer.granted digits).bytes = .ok t) :
    stoi16 digits = .ok t.version := by
  have hreading : reading (Answer.granted digits).bytes = ⟨0, digits, []⟩ :=
    reading_reply ha.1 ha.2
  simp only [meaning, hostNext, hreading] at h
  rw [if_pos ⟨by decide, hdigits⟩] at h
  obtain ⟨version, hversion, h⟩ := Support.Stream.bind_eq_ok h
  cases h
  exact hversion

theorem told_of_served (hN : 8 < N) (hplain : ∀ r, (answer r).Plain) (h : Served answer i)
    {a : Attempt} (hfit : a.Fits N)
    (hattempt : attempt i.call.call.operation N (i.entry o) a = .ok i.session) :
    Told answer o.error i := by
  obtain rfl := served_own hN h hfit hattempt
  have hcall : i.call.call.operation.call N (i.entry o) [(answer i.request).bytes] =
      .ok i.session := hattempt
  obtain ⟨t, hrun, hsession⟩ := (call_ok_iff hN _ _ hfit _ _).mp hcall
  rw [List.foldlM_cons] at hrun
  obtain ⟨t', hnext, hnil⟩ := Support.Stream.bind_eq_ok hrun
  cases hnil
  obtain ⟨hstatus, herror⟩ := host_next h.onHost hnext
  obtain ⟨hread, hreason⟩ := Answer.reading_bytes (hplain i.request)
  have hstate : i.session.state = t := by rw [hsession]; rfl
  refine ⟨?_, ?_, ?_, ?_⟩
  · rw [hsession, finishedSession_returned, hstatus, hread]
  · rw [hstate]
    exact next_takenOver h.onHost i.call.waits (hplain _) hnext
  · rw [hstate, herror, hreason]
    rfl
  · intro hversion digits hdigits hne
    have hplain' := hplain i.request
    rw [hdigits] at hplain' hnext
    rw [hversion] at hnext
    rw [hstate]
    exact next_version hne hplain' hnext

end OneCall

section Runs
variable {N : Nat} {x y : Execution} {o o' : Members} {calls : List Completed}

/-- The sequential calls of an object whose servers answer are calls of a client that
asks them. -/
theorem asks_of_sequential (hN : 8 < N) {answer : Nat → Bytes → Answer}
    (hplain : ∀ n r, (answer n r).Plain) (h : Run (sequential N) (fun _ _ => True) o calls o')
    (n : Nat) (hserved : ∀ k i, calls[k]? = some i → Served (answer (n + k)) i) :
    Run (requestReply answer) (fun _ _ => True) (n, o.error) calls
      (n + calls.length, o'.error) := by
  induction h generalizing n with
  | nil o => exact .nil _
  | @cons o o' i calls henabled _ _ ih =>
    obtain ⟨a, hfit, hattempt⟩ := henabled
    have htold : Told (answer n) o.error i :=
      told_of_served hN (hplain n) (hserved 0 i rfl) hfit hattempt
    have hrest := ih (n + 1) fun k j hj => by
      have hnext := hserved (k + 1) j hj
      rwa [← Nat.add_assoc, Nat.add_right_comm] at hnext
    have herror : ((sequential N).next o i).error = o.error ++ (answer n i.request).reason :=
      htold.error
    rw [herror, Nat.add_right_comm, Nat.add_assoc] at hrest
    exact .cons htold trivial hrest

/-- **Each caller is told the answer to its own request.** For every interleaving of
the two threads with one connection for each call, and host operations in any order
whose servers answer the request they read in one message, each server in its own
way, with a plain text or a plain refusal: the calls that return are a run of the
client that asks and is told, in this order, and between two calls `error_message()`
is the error message at the start and behind it every refusal since then. -/
theorem answers_agree (hN : 8 < N) (hfresh : x.Fresh N o) {moves : List Move}
    (hrun : Run Execution.system (OneConnection N) x moves y) {answer : Nat → Bytes → Answer}
    (hplain : ∀ n r, (answer n r).Plain)
    (hserved : ∀ k i, (trace Execution.system returns x moves)[k]? = some i →
      Served (answer k) i) :
    ∃ n error, Run (requestReply answer) (fun _ _ => True) (0, o.error)
        (trace Execution.system returns x moves) (n, error) ∧
      error = o.error ++ ((trace Execution.system returns x moves).mapIdx
        fun k i => (answer k i.request).reason).flatten ∧
      (y.object.phase = .idle → errorMessage y.session.state = error) := by
  obtain ⟨o', hsequential, hrepresents⟩ := represents_run hN hfresh hrun
  have hasks := asks_of_sequential hN hplain hsequential 0 (by simpa using hserved)
  have herror := congrArg Prod.snd (requestReply_error hasks)
  refine ⟨_, o'.error, hasks, by simpa using herror, ?_⟩
  intro hidle
  exact congrArg Members.error (hrepresents.between hidle)

end Runs

/-- The device is there for the first call and gone for the second one. -/
def unplugged : Nat → Bytes → Answer
  | 0, _ => .granted (ascii "device")
  | _, _ => .refused (ascii "closed")

theorem unplugged_plain (n : Nat) (r : Bytes) : (unplugged n r).Plain := by
  cases n with
  | zero => exact (by decide : (Answer.granted (ascii "device")).Plain)
  | succ n => exact (by decide : (Answer.refused (ascii "closed")).Plain)

/-- A call that wrote its request and got one message. -/
theorem served_of_wire {answer : Bytes → Answer} {i : Completed} (hc : i.call.call.OnHost)
    (hshort : i.request.length ≤ 65535) (hwire : i.session.wire = frame i.request)
    (hreceived : received i.session = [(answer i.request).bytes]) : Served answer i := by
  refine ⟨hc, hshort, i.request, ?_, hreceived⟩
  have hframes : i.session.wire = [i.request].flatMap frame := by
    rw [hwire, List.flatMap_cons, List.flatMap_nil, List.append_nil]
  rw [hframes]
  exact serverDecode_frames (by simpa using hshort)

theorem answers_agree_unplugged :
    ∃ y n, Run Execution.system (OneConnection 16) (Execution.fresh 16) twoTurns y ∧
      Run (requestReply unplugged) (fun _ _ => True) (0, [])
        (trace Execution.system returns (Execution.fresh 16) twoTurns)
        (n, errorMessage y.session.state) := by
  have hrun : Run Execution.system (OneConnection 16) (Execution.fresh 16) twoTurns _ :=
    .of_check rfl
  have hwire : ∀ p ∈ (trace Execution.system returns (Execution.fresh 16) twoTurns).zipIdx,
      p.1.call.call.OnHost ∧ p.1.request.length ≤ 65535 ∧
        p.1.session.wire = frame p.1.request ∧
        received p.1.session = [(unplugged p.2 p.1.request).bytes] := by
    decide +kernel
  have hserved : ∀ k i, (trace Execution.system returns (Execution.fresh 16) twoTurns)[k]? =
      some i → Served (unplugged k) i := by
    intro k i hi
    obtain ⟨hc, hshort, hown, hreceived⟩ := hwire (i, k) (List.mem_zipIdx_iff_getElem?.mpr hi)
    exact served_of_wire hc hshort hown hreceived
  obtain ⟨n, error, hasks, -, hbetween⟩ :=
    answers_agree (by decide) (Execution.fresh_fresh 16) hrun unplugged_plain hserved
  refine ⟨_, n, hrun, ?_⟩
  rw [hbetween rfl]
  exact hasks

end AdbClient.Guarantees.Agreement
