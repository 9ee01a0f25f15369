import AdbClient.Source.Numbers

/-!
# adb_protocol.cpp

The two parsers every message callback goes through. Both look at one message
only: they keep nothing between messages and never read the length field.
-/
namespace AdbClient.Source

def okay : Bytes := ascii "OKAY"
def fail : Bytes := ascii "FAIL"

/-- Returns the status and the two strings as the call leaves them. -/
def readProtocolString (buf : Buffer) (result error : Bytes) :
    Except Fault (Int × Bytes × Bytes) := do
  if buf.size > 4 then
    if ← buf.strncmp okay 4 then
      -- status and length are skipped
      return (0, result ++ (← buf.cStringAt (4 + 4)), error)
    else if ← buf.strncmp fail 4 then
      return (-1, result, error ++ (← buf.cStringAt (4 + 4)))
    else
      -- other conditions: only a length is skipped
      return (0, result ++ (← buf.cStringAt 4), error)
  else if buf.size = 4 then
    if ← buf.strncmp okay 4 then
      return (0, result, error)
    else if ← buf.strncmp fail 4 then
      return (-1, result, error)
    else
      return (0, result, error)
  else
    return (0, result ++ (← buf.cStringAt 0), error)

/-- Returns the status and the strings written on the channel. -/
def respondTransportCommand (buf : Buffer) (transportCmd : Bytes) :
    Except Fault (Int × List Bytes) := do
  if buf.size = 4 then
    if ← buf.strncmp okay 4 then
      return (0, [frame transportCmd])
    else if ← buf.strncmp fail 4 then
      return (-1, [])
    else
      return (0, [])
  else
    return (0, [])

end AdbClient.Source
