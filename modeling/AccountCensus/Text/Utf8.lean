/-!
# UTF-8

Bytes that are no UTF-8 are refused with the first fault in them: where the character at fault
begins, and how many bytes of it could still have begun one, or that the bytes end inside it.
`firstFault` reads byte after byte and keeps the ranges of the bytes that the present character
still lacks.
-/

namespace AccountCensus.Text

namespace Utf8

/-- What is wrong with bytes that are no text. -/
inductive Fault where
  /-- `bad` bytes from offset `start` on begin no character, whatever follows. -/
  | invalid (start bad : Nat)
  /-- The bytes end inside the character that begins at offset `start`. -/
  | cutShort (start : Nat)
deriving DecidableEq, Repr

def Fault.message : Fault → String
  | invalid start bad =>
    "invalid utf-8 sequence of " ++ toString bad ++ " bytes from index " ++ toString start
  | cutShort start => "incomplete utf-8 byte sequence from index " ++ toString start

/-- The least and the greatest byte of a range. -/
structure Range where
  low : UInt8
  high : UInt8
deriving DecidableEq, Repr

def Range.has (r : Range) (b : UInt8) : Bool := r.low ≤ b && b ≤ r.high

/-- The bytes that continue a character. -/
def tail : Range := ⟨0x80, 0xBF⟩

/-- The ranges of the bytes that complete a character with the given first byte, or `none` if no
character begins with it. -/
def completion (first : UInt8) : Option (List Range) :=
  if first < 0x80 then some []
  else if first < 0xC2 then none
  else if first < 0xE0 then some [tail]
  else if first = 0xE0 then some [⟨0xA0, 0xBF⟩, tail]
  else if first = 0xED then some [⟨0x80, 0x9F⟩, tail]
  else if first < 0xF0 then some [tail, tail]
  else if first = 0xF0 then some [⟨0x90, 0xBF⟩, tail, tail]
  else if first < 0xF4 then some [tail, tail, tail]
  else if first = 0xF4 then some [⟨0x80, 0x8F⟩, tail, tail]
  else none

/-- The first fault of bytes that are no text, read up to `offset`, inside a character that began
at `start` and lacks bytes of the given ranges. -/
def firstFault (start offset : Nat) : List Range → List UInt8 → Fault
  | _, [] => .cutShort start
  | [], b :: bytes =>
    match completion b with
    | some ranges => firstFault offset (offset + 1) ranges bytes
    | none => .invalid offset 1
  | r :: ranges, b :: bytes =>
    if r.has b then firstFault start (offset + 1) ranges bytes
    else .invalid start (offset - start)

/-- The text of bytes. -/
def decode (bytes : ByteArray) : Except Fault String :=
  if h : bytes.IsValidUTF8 then .ok (String.fromUTF8 bytes h)
  else .error (firstFault 0 0 [] bytes.data.toList)

end Utf8

end AccountCensus.Text
