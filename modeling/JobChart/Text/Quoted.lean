import JobChart.Text.Printable

/-!
# Quoted text

A text as a literal in quotes. Single quotes stand around it, unless the
text holds a single quote and no double quote. Backslash, the quote in use,
line ends and tabs are escaped, and what is not printable is written by its
code point in two, four or eight hexadecimal digits.

The same rule writes a string of bytes, where every byte beyond ASCII counts
as unprintable.
-/

namespace JobChart.Text

def hexDigit (n : Nat) : Char :=
  if n < 10 then Char.ofNat ('0'.toNat + n) else Char.ofNat ('a'.toNat + (n - 10))

/-- The last `width` hexadecimal digits of `n`. -/
def hexDigits : (width : Nat) → (n : Nat) → List Char
  | 0, _ => []
  | w + 1, n => hexDigits w (n / 16) ++ [hexDigit (n % 16)]

/-- The quote that goes around these characters. -/
def quoteFor (cs : List Char) : Char :=
  if cs.contains '\'' && !cs.contains '"' then '"' else '\''

/-- What a literal writes for a character; `shown` tells which characters
stand for themselves. -/
def escapeIn (quote : Char) (shown : Char → Bool) (c : Char) : List Char :=
  if c = quote || c = '\\' then ['\\', c]
  else if c = '\n' then ['\\', 'n']
  else if c = '\r' then ['\\', 'r']
  else if c = '\t' then ['\\', 't']
  else if shown c then [c]
  else if c.toNat < 0x100 then '\\' :: 'x' :: hexDigits 2 c.toNat
  else if c.toNat < 0x10000 then '\\' :: 'u' :: hexDigits 4 c.toNat
  else '\\' :: 'U' :: hexDigits 8 c.toNat

def literal (shown : Char → Bool) (cs : List Char) : List Char :=
  let q := quoteFor cs
  q :: cs.flatMap (escapeIn q shown) ++ [q]

def quoted (s : String) : String := String.ofList (literal isPrintable s.toList)

/-- A string of bytes as a literal, behind the mark `b`. -/
def quotedBytes (bytes : List UInt8) : String :=
  let ascii (c : Char) : Bool := 0x20 ≤ c.toNat && c.toNat < 0x7F
  String.ofList ('b' :: literal ascii (bytes.map fun b => Char.ofNat b.toNat))

example : quoted "it's" = "\"it's\"" := by decide

example : quoted "a\n\x07" = "'a\\n\\x07'" := by decide

example : quotedBytes [104, 255] = "b'h\\xff'" := by decide

end JobChart.Text
