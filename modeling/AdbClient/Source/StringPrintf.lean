import AdbClient.Source.Numbers

/-!
# android/stringprintf.cpp

`StringPrintf` formats twice when the first, fixed buffer is too small. Both
buffers are uninitialized; what they hold before is a parameter. `vsnprintf` is
that of the C library: it writes what fits and a terminator, returns the length of
the whole text, and a negative number when that is no `int` or the format fails.
-/
namespace AdbClient.Source

/-- The value returned and the buffer afterwards. `formatted` is the text the format
stands for; `none` is an error of the format. -/
def vsnprintf (formatted : Option Bytes) (memory : Bytes) : Int × Bytes :=
  match formatted with
  | none => (-1, memory)
  | some text =>
      if text.length < 2 ^ 31 then
        let written := text.take (memory.length - 1) ++ [0]
        (text.length, written ++ memory.drop written.length)
      else (-1, memory)

/-- `space` is the fixed buffer of 1024 bytes, `heap` a new one of each length. The
length of the second buffer is computed as an `int`. -/
def stringAppendV (dst : Bytes) (formatted : Option Bytes) (space : Bytes)
    (heap : Nat → Bytes) : Except Fault Bytes :=
  let (result, space) := vsnprintf formatted space
  if result < 1024 then
    if 0 ≤ result then .ok (dst ++ space.take result.toNat)
    else .ok dst
  else if result + 1 = 2 ^ 31 then .error .overflow
  else
    let length := result + 1
    let (result, buf) := vsnprintf formatted (heap length.toNat)
    if 0 ≤ result ∧ result < length then .ok (dst ++ buf.take result.toNat)
    else .ok dst

/-- `StringPrintf` appends to an empty string. -/
def stringPrintf (formatted : Option Bytes) (space : Bytes) (heap : Nat → Bytes) :
    Except Fault Bytes :=
  stringAppendV [] formatted space heap

end AdbClient.Source
