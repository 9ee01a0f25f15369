import AdbClient.Abstract.Conversation

/-!
# Earlier messages do not show through the read buffer

All messages are received at the start of the same read buffer, and the
callbacks read C strings that may begin behind the message. What keeps an
earlier, longer message from being read again is that every callback clears the
bytes of its own message before it returns.
-/
namespace AdbClient.Guarantees.BufferIsolation
open Source Abstract Support.Stream

/-- One message handled by the callback of one operation, in any state. -/
structure Dispatch where
  call : Call
  state : CallState
  message : Bytes
  deriving DecidableEq, Repr

/-- The callback of the source on the read buffer as it is. -/
def dispatch (memory : Bytes) (d : Dispatch) : Except Fault Handled :=
  d.call.operation.onMessage d.state (deliver memory d.message)

/-- The read buffer after a sequence of dispatches that all return. -/
def dispatchAll (memory : Bytes) (history : List Dispatch) : Except Fault Bytes :=
  history.foldlM (fun memory d => (dispatch memory d).map (·.memory)) memory

def Received (N : Nat) (d : Dispatch) : Prop := 0 < d.message.length ∧ d.message.length < N

instance (N : Nat) (d : Dispatch) : Decidable (Received N d) :=
  inferInstanceAs (Decidable (_ ∧ _))

/-- The outcome of a callback as a function of its own state and message. -/
def outcome (N : Nat) (d : Dispatch) : Except Fault Handled :=
  ((meaning d.call).next d.state d.message).map fun s' =>
    ⟨s', (meaning d.call).sends d.message, zeroed N, wakes d.call⟩

/-- One callback that returns leaves the buffer as it was before anything was
received. -/
theorem dispatch_memory {N : Nat} (hN : 8 < N) {d : Dispatch} (hd : Received N d) {h : Handled}
    (hrun : dispatch (zeroed N) d = .ok h) : h.memory = zeroed N := by
  rw [dispatch, onMessage_deliver hN hd.2] at hrun
  obtain ⟨s', -, rfl⟩ := map_eq_ok hrun
  rfl

/-- So does any sequence of them, whatever they handled. -/
theorem dispatchAll_memory {N : Nat} (hN : 8 < N) (history : List Dispatch)
    (hhistory : ∀ d ∈ history, Received N d) {memory : Bytes}
    (hrun : dispatchAll (zeroed N) history = .ok memory) : memory = zeroed N := by
  induction history with
  | nil =>
    cases hrun
    rfl
  | cons d history ih =>
    obtain ⟨t, ht, hrest⟩ := foldlM_cons_ok hrun
    obtain ⟨h, hd, rfl⟩ := map_eq_ok ht
    rw [dispatch_memory hN (hhistory d (by simp)) hd] at hrest
    exact ih (fun d' hd' => hhistory d' (by simp [hd'])) hrest

theorem deliver_tail (N : Nat) (m : Bytes) :
    ∀ b ∈ (deliver (zeroed N) m).memory.drop m.length, b = 0 := by
  intro b hb
  rw [deliver, List.drop_left] at hb
  exact List.eq_of_mem_replicate (List.mem_of_mem_drop hb)

/-- After any sequence of callbacks that returned, the next callback finds zero
bytes behind its message; its outcome is a function of its own state and message,
the same after any other such sequence. -/
theorem callback_isolated {N : Nat} (hN : 8 < N) (earlier other : List Dispatch)
    (hearlier : ∀ d ∈ earlier, Received N d) (hother : ∀ d ∈ other, Received N d)
    {memory memory' : Bytes} (hrun : dispatchAll (zeroed N) earlier = .ok memory)
    (hrun' : dispatchAll (zeroed N) other = .ok memory') (d : Dispatch) (hd : Received N d) :
    (∀ b ∈ (deliver memory d.message).memory.drop d.message.length, b = 0) ∧
      dispatch memory d = outcome N d ∧ dispatch memory' d = dispatch memory d := by
  have hmem := dispatchAll_memory hN earlier hearlier hrun
  have hmem' := dispatchAll_memory hN other hother hrun'
  subst hmem hmem'
  exact ⟨deliver_tail N d.message, onMessage_deliver hN hd.2 d.call d.state, rfl⟩

/-- A long listing handled before, and nothing handled before: the two bytes `OK`
read the same. -/
theorem callback_isolated_example :
    dispatch (zeroed 32) ⟨.host .getDevices, .fresh, ascii "OK"⟩ =
      outcome 32 ⟨.host .getDevices, .fresh, ascii "OK"⟩ := by
  have hrun : dispatchAll (zeroed 32)
      [⟨.host .getDevices, .fresh, ascii "OKAY0010emulator-5554\t"⟩] = .ok (zeroed 32) := rfl
  have h := callback_isolated (by decide) _ [] (by decide) (by decide) hrun rfl
    ⟨.host .getDevices, .fresh, ascii "OK"⟩ (by decide)
  exact h.2.1

end AdbClient.Guarantees.BufferIsolation
