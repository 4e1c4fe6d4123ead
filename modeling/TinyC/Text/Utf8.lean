import TinyC.Numeral

namespace TinyC.Text.Utf8

-- Why bytes are not the encoding of a text.
inductive Reason where
  | invalidStart
  | invalidContinuation
  | unexpectedEnd
deriving DecidableEq, Repr

-- The bytes at fault: where they begin, how many they are, and the first of them.
structure Fault where
  reason : Reason
  start : Nat
  count : Nat
  byte : UInt8
deriving DecidableEq, Repr

def Reason.text : Reason → String
  | invalidStart => "invalid start byte"
  | invalidContinuation => "invalid continuation byte"
  | unexpectedEnd => "unexpected end of data"

def Fault.message (fault : Fault) : String :=
  let start := Numeral.decimal fault.start
  let bytes := if fault.count = 1 then
      let byte := String.ofList (hexDigits 2 fault.byte.toNat)
      s!"byte 0x{byte} in position {start}"
    else
      let last := Numeral.decimal (fault.start + fault.count - 1)
      s!"bytes in position {start}-{last}"
  s!"'utf-8' codec can't decode {bytes}: {fault.reason.text}"

-- A sequence that has begun: its first byte and where that is, the bytes read, the bytes
-- missing, the bounds of the next byte, and the bits of the code point so far.
structure Pending where
  byte : UInt8
  start : Nat
  seen : Nat
  missing : Nat
  low : Nat
  high : Nat
  bits : Nat

-- What the first byte of a longer sequence asks for. The bounds of the second byte exclude
-- overlong sequences, surrogates and what lies beyond the last code point.
def lead? (start : Nat) (byte : UInt8) : Option Pending :=
  let value := byte.toNat
  let pending (missing low high bits : Nat) : Pending := ⟨byte, start, 1, missing, low, high, bits⟩
  if value < 0xC2 then none
  else if value < 0xE0 then some (pending 1 0x80 0xBF (value - 0xC0))
  else if value < 0xF0 then
    let low := if value = 0xE0 then 0xA0 else 0x80
    let high := if value = 0xED then 0x9F else 0xBF
    some (pending 2 low high (value - 0xE0))
  else if value < 0xF5 then
    let low := if value = 0xF0 then 0x90 else 0x80
    let high := if value = 0xF4 then 0x8F else 0xBF
    some (pending 3 low high (value - 0xF0))
  else none

-- Decodes bytes from a position on, behind the characters decoded (newest first).
def decodeFrom (position : Nat) (pending : Option Pending) (decoded : List Char) :
    List UInt8 → Except Fault (List Char)
  | [] =>
    match pending with
    | none => .ok decoded.reverse
    | some pending => .error ⟨.unexpectedEnd, pending.start, pending.seen, pending.byte⟩
  | byte :: rest =>
    match pending with
    | none =>
      if byte < 0x80 then decodeFrom (position + 1) none (Char.ofNat byte.toNat :: decoded) rest
      else
        match lead? position byte with
        | none => .error ⟨.invalidStart, position, 1, byte⟩
        | some pending => decodeFrom (position + 1) (some pending) decoded rest
    | some pending =>
      let value := byte.toNat
      if pending.low ≤ value && value ≤ pending.high then
        let bits := pending.bits * 64 + value % 64
        if pending.missing = 1 then
          decodeFrom (position + 1) none (Char.ofNat bits :: decoded) rest
        else
          decodeFrom (position + 1)
            (some ⟨pending.byte, pending.start, pending.seen + 1, pending.missing - 1,
              0x80, 0xBF, bits⟩) decoded rest
      else .error ⟨.invalidContinuation, pending.start, pending.seen, pending.byte⟩

def decode (bytes : List UInt8) : Except Fault (List Char) := decodeFrom 0 none [] bytes

def encode (text : String) : List UInt8 := text.toUTF8.toList

end TinyC.Text.Utf8
