/-!
# Base 64

Lenient decoding: characters outside the alphabet are passed over, and
padding that completes a group of four ends the text.
-/

namespace JobChart.Text

inductive Base64Error where
  /-- One character is left over; `count` is the number of characters of the alphabet. -/
  | strayCharacter (count : Nat)
  | padding
deriving DecidableEq, Repr

def Base64Error.message : Base64Error → String
  | strayCharacter n =>
    "Invalid base64-encoded string: number of data characters (" ++ toString n
      ++ ") cannot be 1 more than a multiple of 4"
  | padding => "Incorrect padding"

/-- The six bits of a character of the alphabet. -/
def sextet? (c : Char) : Option Nat :=
  let n := c.toNat
  if 'A' ≤ c ∧ c ≤ 'Z' then some (n - 65)
  else if 'a' ≤ c ∧ c ≤ 'z' then some (n - 97 + 26)
  else if '0' ≤ c ∧ c ≤ '9' then some (n - 48 + 52)
  else if c = '+' then some 62
  else if c = '/' then some 63
  else none

/-- The sextets up to the padding that completes a group, and whether there
is such padding; `pads` counts the padding since the last sextet. -/
def sextets : (place pads : Nat) → List Char → List Nat × Bool
  | _, _, [] => ([], false)
  | place, pads, c :: cs =>
    if c = '=' then
      if 2 ≤ place then
        if 4 ≤ place + pads + 1 then ([], true) else sextets place (pads + 1) cs
      else sextets place pads cs
    else
      match sextet? c with
      | none => sextets place pads cs
      | some s =>
        let (ss, ended) := sextets ((place + 1) % 4) 0 cs
        (s :: ss, ended)

/-- The bytes that whole groups spell; of a last group the whole bytes. -/
def bytesOf : List Nat → List UInt8
  | a :: b :: c :: d :: rest =>
    UInt8.ofNat (a * 4 + b / 16) :: UInt8.ofNat (b % 16 * 16 + c / 4)
      :: UInt8.ofNat (c % 4 * 64 + d) :: bytesOf rest
  | [a, b, c] => [UInt8.ofNat (a * 4 + b / 16), UInt8.ofNat (b % 16 * 16 + c / 4)]
  | [a, b] => [UInt8.ofNat (a * 4 + b / 16)]
  | _ => []

def decodeBase64 (cs : List Char) : Except Base64Error (List UInt8) :=
  let (ss, ended) := sextets 0 0 cs
  if ended ∨ ss.length % 4 = 0 then .ok (bytesOf ss)
  else if ss.length % 4 = 1 then .error (.strayCharacter ss.length)
  else .error .padding

end JobChart.Text
