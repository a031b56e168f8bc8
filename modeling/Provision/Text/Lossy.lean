/-! Text from any bytes.

Bytes that are no text are read as well as they can be: every longest piece that starts
a character without finishing it becomes one replacement character. -/
namespace Provision.Text

/-- How many bytes continue a character after its first one, and the bounds of the next. -/
def continuation (b : UInt8) : Nat × UInt8 × UInt8 :=
  if 0xC2 ≤ b && b ≤ 0xDF then (1, 0x80, 0xBF)
  else if b = 0xE0 then (2, 0xA0, 0xBF)
  else if b = 0xED then (2, 0x80, 0x9F)
  else if 0xE1 ≤ b && b ≤ 0xEF then (2, 0x80, 0xBF)
  else if b = 0xF0 then (3, 0x90, 0xBF)
  else if b = 0xF4 then (3, 0x80, 0x8F)
  else if 0xF1 ≤ b && b ≤ 0xF3 then (3, 0x80, 0xBF)
  else (0, 0, 0)

/-- The bytes that continue a character, up to `n` of them. The first one has bounds of
its own. -/
def continued : Nat → UInt8 → UInt8 → List UInt8 → List UInt8
  | n + 1, low, high, b :: rest =>
    if low ≤ b && b ≤ high then b :: continued n 0x80 0xBF rest else []
  | _, _, _, _ => []

def ofBytes : List UInt8 → String
  | [] => ""
  | b :: rest =>
    let (n, low, high) := continuation b
    let more := continued n low high rest
    (String.fromUTF8? (b :: more).toByteArray).getD "\ufffd" ++ ofBytes (rest.drop more.length)
termination_by bytes => bytes.length

end Provision.Text
