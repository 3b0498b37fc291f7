import JobChart.Yaml.Failure

/-!
# Cursors

A cursor is a place in a text together with what follows. The end of the
text reads as the character NUL, which no text holds.

Line breaks are the line feed, the carriage return (one break together with
a line feed behind it), the next-line character and the two Unicode
separators. A byte order mark takes no column.
-/

namespace JobChart.Yaml

/-- A place in a text and the rest of it. -/
structure Cursor where
  rest : List Char
  mark : Mark := {}
deriving Repr

/-! ## Character classes -/

/-- What the end of a text reads as. -/
def endChar : Char := '\x00'

def isBreak (c : Char) : Bool :=
  c == '\n' || c == '\r' || c == '\x85' || c == '\u2028' || c == '\u2029'

def isBreakOrEnd (c : Char) : Bool := c == endChar || isBreak c

def isSpaceOrEnd (c : Char) : Bool := c == ' ' || isBreakOrEnd c

def isSeparator (c : Char) : Bool := c == '\t' || isSpaceOrEnd c

def isGap (c : Char) : Bool := c == ' ' || c == '\t'

def isNameChar (c : Char) : Bool := c.isAlphanum || c == '-' || c == '_'

def isHexDigit (c : Char) : Bool :=
  c.isDigit || ('a' ≤ c && c ≤ 'f') || ('A' ≤ c && c ≤ 'F')

namespace Cursor

/-! ## Looking ahead -/

def peek (c : Cursor) : Char := c.rest.headD endChar

def peekAt (c : Cursor) (n : Nat) : Char := (c.rest.drop n).headD endChar

def column (c : Cursor) : Nat := c.mark.column

/-- Whether `---` or `...` stands here as a separator of documents. -/
def atMark (sign : Char) (c : Cursor) : Bool :=
  c.rest.take 3 == [sign, sign, sign] && isSeparator (c.peekAt 3)

/-- Whether documents are separated here. -/
def atSeparator (c : Cursor) : Bool := c.atMark '-' || c.atMark '.'

/-! ## Moving -/

/-- The place behind a character that is followed by `rest`. -/
def markAfter (m : Mark) (ch : Char) (rest : List Char) : Mark :=
  if ch == '\r' && rest.head? == some '\n' then ⟨m.index + 1, m.line, m.column + 1⟩
  else if isBreak ch then ⟨m.index + 1, m.line + 1, 0⟩
  else if ch == '\uFEFF' then ⟨m.index + 1, m.line, m.column⟩
  else ⟨m.index + 1, m.line, m.column + 1⟩

def next (c : Cursor) : Cursor :=
  match c.rest with
  | [] => c
  | ch :: rest => ⟨rest, markAfter c.mark ch rest⟩

def advance : (n : Nat) → Cursor → Cursor
  | 0, c => c
  | n + 1, c => advance n c.next

def run (p : Char → Bool) (c : Cursor) : List Char := c.rest.takeWhile p

def skip (p : Char → Bool) (c : Cursor) : Cursor := c.advance (c.run p).length

/-- Behind a line break, if one stands here, and the break as a text has it:
most breaks become a line feed. -/
def lineBreak (c : Cursor) : List Char × Cursor :=
  let ch := c.peek
  if ch == '\r' && c.peekAt 1 == '\n' then (['\n'], c.advance 2)
  else if ch == '\r' || ch == '\n' || ch == '\x85' then (['\n'], c.next)
  else if isBreak ch then ([ch], c.next)
  else ([], c)

def skipComment (c : Cursor) : Cursor :=
  if c.peek == '#' then c.skip (!isBreakOrEnd ·) else c

def fail {α : Type} (c : Cursor) (p : Problem) : Except Failure α := .error (.problem p c.mark)

/-- A failure about the character that stands here. -/
def failExpected {α : Type} (c : Cursor) (what : Expected) : Except Failure α :=
  c.fail (.expected what c.peek)

/-- The rest of a line that may only hold a comment, and its break. -/
def endLine (c : Cursor) : Except Failure Cursor :=
  let c := (c.skip (· == ' ')).skipComment
  if isBreakOrEnd c.peek then .ok c.lineBreak.2 else c.failExpected .commentOrBreak

end Cursor

end JobChart.Yaml
