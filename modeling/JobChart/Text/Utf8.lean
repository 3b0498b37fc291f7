/-!
# UTF-8

Strict decoding of UTF-8. A fault names the bytes that do not fit, as the
longest run that could still have begun a character, and the reason.
-/

namespace JobChart.Text

inductive Utf8Reason where
  | badStart
  | badContinuation
  | unexpectedEnd
deriving DecidableEq, Repr

def Utf8Reason.message : Utf8Reason → String
  | badStart => "invalid start byte"
  | badContinuation => "invalid continuation byte"
  | unexpectedEnd => "unexpected end of data"

/-- The bytes from `start` up to but not including `stop` do not fit. -/
structure Utf8Error where
  start : Nat
  stop : Nat
  first : UInt8
  reason : Utf8Reason
deriving DecidableEq, Repr

def Utf8Error.message (e : Utf8Error) : String :=
  let byte := String.ofList (Nat.toDigits 16 e.first.toNat)
  let place :=
    if e.stop = e.start + 1 then
      "byte 0x" ++ byte ++ " in position " ++ toString e.start
    else "bytes in position " ++ toString e.start ++ "-" ++ toString (e.stop - 1)
  "'utf-8' codec can't decode " ++ place ++ ": " ++ e.reason.message

/-- A byte that goes on a character. -/
def isContinuation (b : UInt8) : Bool := 0x80 ≤ b && b < 0xC0

/-- How many bytes go on after this first byte, and its bits; none for a
byte that starts no character. -/
def leadByte? (b : UInt8) : Option (Nat × Nat) :=
  let n := b.toNat
  if n < 0x80 then some (0, n)
  else if n < 0xC2 then none
  else if n < 0xE0 then some (1, n - 0xC0)
  else if n < 0xF0 then some (2, n - 0xE0)
  else if n < 0xF5 then some (3, n - 0xF0)
  else none

/-- Whether `b` may come second after `lead`: no longer form than needed, no
surrogate, nothing past the last code point. -/
def fitsSecond (lead b : UInt8) : Bool :=
  isContinuation b
    && (lead != 0xE0 || 0xA0 ≤ b) && (lead != 0xED || b < 0xA0)
    && (lead != 0xF0 || 0x90 ≤ b) && (lead != 0xF4 || b < 0x90)

/-- Takes the bytes that go on a character: the code point, or after how many
bytes it breaks off and why. -/
def continueChar (lead : UInt8) : (count seen bits : Nat) → List UInt8 →
    Except (Nat × Utf8Reason) Nat
  | 0, _, bits, _ => .ok bits
  | _ + 1, seen, _, [] => .error (seen, .unexpectedEnd)
  | count + 1, seen, bits, b :: bs =>
    if (if seen = 1 then fitsSecond lead b else isContinuation b) then
      continueChar lead count (seen + 1) (bits * 64 + (b.toNat - 0x80)) bs
    else .error (seen, .badContinuation)

/-- Decodes from position `pos`; `skip` bytes belong to a character already read. -/
def decodeFrom : (pos skip : Nat) → List UInt8 → Except Utf8Error (List Char)
  | _, _, [] => .ok []
  | pos, skip + 1, _ :: bs => decodeFrom (pos + 1) skip bs
  | pos, 0, b :: bs =>
    match leadByte? b with
    | none => .error ⟨pos, pos + 1, b, .badStart⟩
    | some (count, bits) =>
      match continueChar b count 1 bits bs with
      | .error (seen, reason) => .error ⟨pos, pos + seen, b, reason⟩
      | .ok code => (decodeFrom (pos + 1) count bs).map (Char.ofNat code :: ·)

def decodeUtf8 (bs : List UInt8) : Except Utf8Error String :=
  (decodeFrom 0 0 bs).map String.ofList

end JobChart.Text
