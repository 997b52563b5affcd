import ServerConf.Text.Quoted

/-!
Reading UTF-8. The decoder takes one byte at a time and knows, inside a
character, where the character began, how many bytes it still owes and which
bytes may come next. So the bytes it complains about are always the longest part
of a character that could have been completed.
-/

namespace ServerConf.Text.Utf8

inductive Reason where
  | invalidStart
  | invalidContinuation
  | unexpectedEnd
  deriving DecidableEq, Repr

def Reason.message : Reason → String
  | .invalidStart => "invalid start byte"
  | .invalidContinuation => "invalid continuation byte"
  | .unexpectedEnd => "unexpected end of data"

/-- The bytes from offset `first` to offset `last` are no character; `byte` is
the first one. -/
structure Fault where
  byte : UInt8
  first : Nat
  last : Nat
  reason : Reason
  deriving DecidableEq, Repr

def Fault.message (fault : Fault) : String :=
  let place :=
    if fault.first = fault.last then
      "byte 0x" ++ String.ofList (hexDigits 2 fault.byte.toNat) ++
        " in position " ++ toString fault.first
    else
      "bytes in position " ++ toString fault.first ++ "-" ++ toString fault.last
  "'utf-8' codec can't decode " ++ place ++ ": " ++ fault.reason.message

/-- A character that began at offset `start` with `lead`, has the value `value`
so far, and needs `owed` more bytes, the next of them between `low` and
`high`. -/
structure Pending where
  lead : UInt8
  start : Nat
  value : Nat
  owed : Nat
  low : Nat
  high : Nat
  deriving DecidableEq, Repr

def Pending.begin? (byte : UInt8) (start : Nat) : Option Pending :=
  let n := byte.toNat
  if n < 0xC2 then none
  else if n < 0xE0 then some ⟨byte, start, n - 0xC0, 1, 0x80, 0xBF⟩
  else if n = 0xE0 then some ⟨byte, start, 0, 2, 0xA0, 0xBF⟩
  else if n = 0xED then some ⟨byte, start, 0xD, 2, 0x80, 0x9F⟩
  else if n < 0xF0 then some ⟨byte, start, n - 0xE0, 2, 0x80, 0xBF⟩
  else if n = 0xF0 then some ⟨byte, start, 0, 3, 0x90, 0xBF⟩
  else if n < 0xF4 then some ⟨byte, start, n - 0xF0, 3, 0x80, 0xBF⟩
  else if n = 0xF4 then some ⟨byte, start, 4, 3, 0x80, 0x8F⟩
  else none

/-- Reads bytes, the first at offset `offset`, inside the character `pending` if
there is one. -/
def decodeFrom (offset : Nat) :
    Option Pending → List UInt8 → Except Fault (List Char)
  | none, [] => .ok []
  | some p, [] => .error ⟨p.lead, p.start, offset - 1, .unexpectedEnd⟩
  | none, byte :: rest =>
    if byte < 0x80 then
      (decodeFrom (offset + 1) none rest).map (Char.ofNat byte.toNat :: ·)
    else
      match Pending.begin? byte offset with
      | some p => decodeFrom (offset + 1) (some p) rest
      | none => .error ⟨byte, offset, offset, .invalidStart⟩
  | some p, byte :: rest =>
    if p.low ≤ byte.toNat && byte.toNat ≤ p.high then
      let value := p.value * 64 + (byte.toNat - 0x80)
      if p.owed ≤ 1 then
        (decodeFrom (offset + 1) none rest).map (Char.ofNat value :: ·)
      else
        decodeFrom (offset + 1)
          (some ⟨p.lead, p.start, value, p.owed - 1, 0x80, 0xBF⟩) rest
    else
      .error ⟨p.lead, p.start, offset - 1, .invalidContinuation⟩

def decode (bytes : ByteArray) : Except Fault (List Char) :=
  decodeFrom 0 none bytes.data.toList

def encode (s : String) : ByteArray :=
  s.toUTF8

end ServerConf.Text.Utf8
