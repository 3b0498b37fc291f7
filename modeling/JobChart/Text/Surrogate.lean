import JobChart.Fault
import JobChart.Text.Quoted

/-!
# Lone surrogates

An escape in a document may spell half of a surrogate pair, and so a text that
has no bytes in UTF-8. A `String` holds no such half. As many characters of a
plane for private use stand for the surrogates instead; a document that holds
one of them itself cannot be told from one that spells a surrogate.
-/

namespace JobChart.Text

/-- How far the stand-ins are behind the surrogates. -/
def standInOffset : Nat := 0xF0000

def isSurrogate (n : Nat) : Bool := 0xD800 ≤ n && n < 0xE000

/-- The character that stands for a surrogate. -/
def standIn (surrogate : Nat) : Char := Char.ofNat (surrogate + standInOffset)

/-- The surrogate that a character stands for. -/
def surrogate? (c : Char) : Option Nat :=
  if isSurrogate (c.toNat - standInOffset) then some (c.toNat - standInOffset) else none

/-- The fault of encoding a text whose surrogates from `first` on, `count` in a
row, have no bytes. -/
def encodingFault (surrogate first count : Nat) : Fault :=
  let place :=
    if count = 1 then
      "character '\\u" ++ String.ofList (hexDigits 4 surrogate) ++ "' in position "
        ++ toString first
    else "characters in position " ++ toString first ++ "-" ++ toString (first + count - 1)
  ⟨"UnicodeEncodeError", "'utf-8' codec can't encode " ++ place ++ ": surrogates not allowed"⟩

/-- What keeps a text from being encoded in UTF-8: its first surrogates. -/
def utf8Fault? (s : String) : Option Fault :=
  let cs := s.toList
  let rest := cs.dropWhile fun c => (surrogate? c).isNone
  (rest.head?.bind surrogate?).map fun n =>
    encodingFault n (cs.length - rest.length) (rest.takeWhile fun c => (surrogate? c).isSome).length

example : utf8Fault? (String.ofList ['a', standIn 0xD800]) =
    some ⟨"UnicodeEncodeError",
      "'utf-8' codec can't encode character '\\ud800' in position 1: surrogates not allowed"⟩ := by
  decide +kernel

end JobChart.Text
