import Mathlib.Data.List.Infix
import AdbClient.Support.CString

/-!
# The read buffer a message callback sees

`hv::Buffer` is a pointer into the read buffer of the connection and the number
of bytes the message occupies there. `std::string(char*)`, `strcmp` and `strstr`
take no size: they walk the read buffer until a zero byte. The model therefore
keeps the whole memory from `data()` to the end of the read buffer, and a walk
that leaves it is a fault.
-/
namespace AdbClient.Source
open Support

abbrev Byte := UInt8
abbrev Bytes := List Byte

/-- A string literal, one byte for each character, without its terminator. -/
def ascii (s : String) : Bytes := s.toList.map fun c => UInt8.ofNat c.toNat

/-- What C++ does instead of returning: undefined behaviour (`outOfBounds`,
`overflow`) or an exception that the modelled code does not catch. -/
inductive Fault where
  | outOfBounds | overflow | invalidArgument | outOfRange
  deriving DecidableEq, Repr

/-- A read of memory; one that leaves the object is a fault. -/
def load {α : Type} : Option α → Except Fault α
  | none => .error .outOfBounds
  | some a => .ok a

/-- `text w` is `std::string(w)` for a `w` with a zero byte behind it. -/
def text (w : Bytes) : Bytes := CString.upTo 0 w

theorem text_eq_self {w : Bytes} (h : 0 ∉ w) : text w = w := CString.upTo_of_not_mem h

structure Buffer where
  memory : Bytes
  size : Nat
  size_le : size ≤ memory.length
  deriving DecidableEq, Repr

namespace Buffer

/-- `std::string((char*)buf->data() + offset)`. -/
def cStringAt (buf : Buffer) (offset : Nat) : Except Fault Bytes :=
  load (CString.scan 0 (buf.memory.drop offset))

/-- `strncmp((char*)buf->data(), literal, n) == 0`. -/
def strncmp (buf : Buffer) (literal : Bytes) (n : Nat) : Except Fault Bool :=
  load (CString.equalUpTo 0 buf.memory literal n)

/-- `strcmp((char*)buf->data(), literal) == 0`. -/
def strcmp (buf : Buffer) (literal : Bytes) : Except Fault Bool :=
  load (CString.equal 0 buf.memory literal)

/-- `strstr((char*)buf->data(), needle) != NULL`. -/
def strstr (buf : Buffer) (needle : Bytes) : Except Fault Bool := do
  let haystack ← buf.cStringAt 0
  return decide (needle <:+: haystack)

/-- `std::string(data, data + buf->size())`: the message, zero bytes included. -/
def payload (buf : Buffer) : Bytes := buf.memory.take buf.size

theorem payload_length (buf : Buffer) : buf.payload.length = buf.size := by
  rw [payload, List.length_take, Nat.min_eq_left buf.size_le]

/-- The read buffer after `memset(buf->data(), 0, buf->size())`. -/
def memset (buf : Buffer) : Bytes :=
  List.replicate buf.size 0 ++ buf.memory.drop buf.size

end Buffer

/-- A read buffer of `n` bytes before anything was received. -/
def zeroed (n : Nat) : Bytes := List.replicate n 0

/-- The next message is received at the start of the read buffer and overwrites
its own bytes only. -/
def deliver (memory message : Bytes) : Buffer where
  memory := message ++ memory.drop message.length
  size := message.length
  size_le := by simp

@[simp] theorem deliver_size (memory message : Bytes) :
    (deliver memory message).size = message.length := rfl

@[simp] theorem deliver_payload (memory message : Bytes) :
    (deliver memory message).payload = message := by
  simp [Buffer.payload, deliver]

section Zeroed
variable {N : Nat} {m : Bytes}

/-- A message shorter than the buffer is followed by at least one zero byte. -/
theorem deliver_memory (h : m.length < N) :
    (deliver (zeroed N) m).memory = m ++ 0 :: List.replicate (N - m.length - 1) 0 := by
  simp only [deliver, zeroed, List.drop_replicate]
  rw [← List.replicate_succ]
  congr 2
  omega

theorem drop_deliver_memory {k : Nat} (h : m.length < N) (hk : k < N) :
    ∃ rest, (deliver (zeroed N) m).memory.drop k = m.drop k ++ 0 :: rest := by
  rw [deliver_memory h, List.drop_append]
  by_cases hle : k ≤ m.length
  · exact ⟨List.replicate (N - m.length - 1) 0, by simp [Nat.sub_eq_zero_of_le hle]⟩
  · refine ⟨List.replicate (N - k - 1) 0, ?_⟩
    rw [← List.replicate_succ, ← List.replicate_succ, List.drop_replicate]
    congr 2
    omega

/-- A C string read at an offset inside the buffer stops at the end of the
message at the latest, also when the offset already lies behind it. -/
theorem cStringAt_deliver {k : Nat} (h : m.length < N) (hk : k < N) :
    (deliver (zeroed N) m).cStringAt k = .ok (text (m.drop k)) := by
  obtain ⟨rest, hrest⟩ := drop_deliver_memory h hk
  rw [Buffer.cStringAt, hrest, CString.scan_append]
  rfl

theorem strncmp_deliver {literal : Bytes} (h : m.length < N) (hz : 0 ∉ literal) :
    (deliver (zeroed N) m).strncmp literal literal.length = .ok (decide (literal <+: m)) := by
  rw [Buffer.strncmp, deliver_memory h, CString.equalUpTo_append _ _ _ hz]
  rfl

theorem strcmp_deliver {literal : Bytes} (h : m.length < N) (hz : 0 ∉ literal) :
    (deliver (zeroed N) m).strcmp literal = .ok (decide (text m = literal)) := by
  rw [Buffer.strcmp, deliver_memory h, CString.equal_append _ _ _ hz]
  rfl

theorem strstr_deliver {needle : Bytes} (h : m.length < N) :
    (deliver (zeroed N) m).strstr needle = .ok (decide (needle <:+: text m)) := by
  rw [Buffer.strstr, cStringAt_deliver h (Nat.zero_lt_of_lt h)]
  rfl

/-- A buffer with nothing but zero bytes behind the message is one in which the
message was received when all bytes were zero. -/
theorem eq_deliver {buf : Buffer} (h : ∀ c ∈ buf.memory.drop buf.size, c = 0) :
    buf = deliver (zeroed buf.memory.length) buf.payload := by
  have hbehind : buf.memory.drop buf.size =
      (zeroed buf.memory.length).drop buf.payload.length := by
    rw [zeroed, List.drop_replicate, buf.payload_length, ← List.length_drop]
    exact List.eq_replicate_of_mem h
  have hmemory : buf.memory =
      buf.payload ++ (zeroed buf.memory.length).drop buf.payload.length := by
    rw [← hbehind]
    exact (List.take_append_drop _ _).symm
  have hsize := buf.payload_length
  cases buf
  simp only [deliver, Buffer.mk.injEq]
  exact ⟨hmemory, hsize.symm⟩

/-- Clearing the message restores the whole buffer to zero. -/
theorem memset_deliver (h : m.length ≤ N) : (deliver (zeroed N) m).memset = zeroed N := by
  simp only [Buffer.memset, deliver, zeroed, List.drop_left, List.drop_replicate]
  rw [List.replicate_append_replicate]
  congr 1
  omega

/-- A message longer than the buffer is its own, and cleared like any other. -/
theorem memset_deliver_max : (deliver (zeroed N) m).memset = zeroed (max N m.length) := by
  rcases Nat.le_total m.length N with hfit | hlong
  · rw [memset_deliver hfit, Nat.max_eq_left hfit]
  · simp [Buffer.memset, deliver, zeroed, hlong]

end Zeroed
end AdbClient.Source
