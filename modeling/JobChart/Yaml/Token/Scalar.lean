import JobChart.Text.Surrogate
import JobChart.Yaml.Token.Name

/-!
# Scalars

The texts a document holds: plain ones, quoted ones and blocks. Line breaks
inside a scalar are folded. A single break counts as a space, and of several
the first is dropped; in a literal block every break is kept.
-/

namespace JobChart.Yaml

open Text

/-! ## Breaks -/

/-- A break and those that follow it, folded. -/
def foldBreaks (first : List Char) (more : List (List Char)) : List Char :=
  if first != ['\n'] then first ++ more.flatten
  else if more.isEmpty then [' '] else more.flatten

/-! ## Quoted scalars -/

/-- The breaks and blanks at the start of a line of a quoted scalar. -/
def quotedBreaks : (fuel : Nat) → Cursor → Reading (List (List Char) × Cursor)
  | 0, c => .ok ([], c)
  | fuel + 1, c =>
    if c.atSeparator then c.fail .separatorInQuote
    else
      let c := c.skip isGap
      if isBreak c.peek then do
        let (b, c) := c.lineBreak
        let (bs, c) ← quotedBreaks fuel c
        return (b :: bs, c)
      else .ok ([], c)

/-- The blanks and breaks between the words of a quoted scalar. -/
def quotedSpace (c : Cursor) : Reading (List Char × Cursor) := do
  let blanks := c.run isGap
  let c := c.skip isGap
  if c.peek == endChar then c.fail .unclosedQuote
  else if isBreak c.peek then
    let (b, c) := c.lineBreak
    let (bs, c) ← quotedBreaks (c.rest.length + 1) c
    return (foldBreaks b bs, c)
  else return (blanks, c)

/-- What a one-letter escape stands for. -/
def escapeChar? (c : Char) : Option Char :=
  match c with
  | '0' => some '\x00'
  | 'a' => some '\x07'
  | 'b' => some '\x08'
  | 't' | '\t' => some '\t'
  | 'n' => some '\n'
  | 'v' => some '\x0b'
  | 'f' => some '\x0c'
  | 'r' => some '\r'
  | 'e' => some '\x1b'
  | ' ' | '"' | '\\' | '/' => some c
  | 'N' => some '\x85'
  | '_' => some '\xa0'
  | 'L' => some '\u2028'
  | 'P' => some '\u2029'
  | _ => none

/-- How many hexadecimal digits follow the letter of a numeric escape. -/
def escapeLength? (c : Char) : Option Nat :=
  match c with
  | 'x' => some 2
  | 'u' => some 4
  | 'U' => some 8
  | _ => none

def charOfHex (ds : List Char) : Reading Char :=
  let n := (Decimal.natOf? 16 ds).getD 0
  if isSurrogate n then .ok (standIn n)
  else if n < 0x110000 then .ok (Char.ofNat n)
  else if n < 0x80000000 then .error (.scalar .codePointRange)
  else .error (.scalar .codePointSize)

def readEscape (c : Cursor) : Reading (List Char × Cursor) :=
  let ch := c.peek
  match escapeChar? ch, escapeLength? ch with
  | some e, _ => .ok ([e], c.next)
  | none, some n =>
    let c := c.next
    let ds := (List.range n).map c.peekAt
    match ds.find? (!isHexDigit ·) with
    | some d => c.fail (.expected (.escapeDigits n) d)
    | none => do
      let e ← charOfHex ds
      return ([e], c.advance n)
  | none, none =>
    if isBreak ch then do
      let c := c.lineBreak.2
      let (bs, c) ← quotedBreaks (c.rest.length + 1) c
      return (bs.flatten, c)
    else c.fail (.unknownEscape ch)

def isQuotedChar (c : Char) : Bool :=
  !(c == '\'' || c == '"' || c == '\\' || isSeparator c)

def readQuoted (quote : Char) : (fuel : Nat) → Cursor → Reading (List Char × Cursor)
  | 0, c => c.fail .unclosedQuote
  | fuel + 1, c =>
    let ch := c.peek
    let go (part : List Char) (c : Cursor) : Reading (List Char × Cursor) := do
      let (more, c) ← readQuoted quote fuel c
      return (part ++ more, c)
    if isQuotedChar ch then go (c.run isQuotedChar) (c.skip isQuotedChar)
    else if ch == quote then
      if quote == '\'' && c.peekAt 1 == '\'' then go ['\''] (c.advance 2) else .ok ([], c.next)
    else if ch == '\\' && quote == '"' then do
      let (part, c) ← readEscape c.next
      go part c
    else if isSeparator ch then do
      let (part, c) ← quotedSpace c
      go part c
    else go [ch] c.next

def readQuotedScalar (c : Cursor) : Reading (Token × Cursor) := do
  let (cs, after) ← readQuoted c.peek (c.rest.length + 1) c.next
  return (⟨.scalar (String.ofList cs) false, c.mark, after.mark⟩, after)

/-! ## Plain scalars -/

/-- Whether a plain scalar breaks off before the next character. In a flow
collection its signs end the scalar too. -/
def endsPlain (inFlow : Bool) (c : Cursor) : Bool :=
  let ch := c.peek
  let sign (d : Char) : Bool := inFlow && ",[]\x7b\x7d".toList.contains d
  isSeparator ch || sign ch || (inFlow && ch == '?')
    || (ch == ':' && (isSeparator (c.peekAt 1) || sign (c.peekAt 1)))

/-- The characters of a plain scalar up to a blank or a sign. -/
def plainWord (inFlow : Bool) : (fuel : Nat) → Cursor → List Char × Cursor
  | 0, c => ([], c)
  | fuel + 1, c =>
    if endsPlain inFlow c then ([], c)
    else
      let (cs, after) := plainWord inFlow fuel c.next
      (c.peek :: cs, after)

/-- The breaks and spaces after a line of a plain scalar; none when
documents are separated there. -/
def plainBreaks : (fuel : Nat) → Cursor → Option (List (List Char)) × Cursor
  | 0, c => (some [], c)
  | fuel + 1, c =>
    if c.peek == ' ' then plainBreaks fuel c.next
    else if isBreak c.peek then
      let (b, c) := c.lineBreak
      if c.atSeparator then (none, c)
      else
        let (bs, c) := plainBreaks fuel c
        (bs.map (b :: ·), c)
    else (some [], c)

/-- What stands between two words of a plain scalar. -/
structure PlainSpace where
  /-- The text it stands for, unless the scalar cannot go on behind it. -/
  text : List Char
  /-- A line ended, so a key may follow. -/
  hasBreak : Bool

/-- The space behind a word of a plain scalar. -/
def plainSpace (c : Cursor) : PlainSpace × Cursor :=
  let spaces := c.run (· == ' ')
  let c := c.skip (· == ' ')
  if isBreak c.peek then
    let (b, c) := c.lineBreak
    if c.atSeparator then (⟨[], true⟩, c)
    else
      match plainBreaks (c.rest.length + 1) c with
      | (some bs, c) => (⟨foldBreaks b bs, true⟩, c)
      | (none, c) => (⟨[], true⟩, c)
  else (⟨spaces, false⟩, c)

/-- What a plain scalar reads as: the text, where its last word ends, and
whether a line ended behind that word. -/
structure PlainText where
  text : List Char
  stop : Mark
  keyMayFollow : Bool

/-- The words of a plain scalar from here on. `space` is what stands in front
of them, `stop` and `keyMayFollow` are what holds if there are none. Lines
indented less than `indent` do not belong to it. -/
def plainText (inFlow : Bool) (indent : Int) :
    (fuel : Nat) → (space : List Char) → (stop : Mark) → (keyMayFollow : Bool) → Cursor →
      PlainText × Cursor
  | 0, _, stop, keyMayFollow, c => (⟨[], stop, keyMayFollow⟩, c)
  | fuel + 1, space, stop, keyMayFollow, c =>
    match if c.peek == '#' then ([], c) else plainWord inFlow (fuel + 1) c with
    | ([], _) => (⟨[], stop, keyMayFollow⟩, c)
    | (word, after) =>
      let (gap, next) := plainSpace after
      if gap.text.isEmpty || next.peek == '#' || (!inFlow && (next.column : Int) < indent) then
        (⟨space ++ word, after.mark, gap.hasBreak⟩, next)
      else
        let (more, last) := plainText inFlow indent fuel gap.text after.mark gap.hasBreak next
        ({ more with text := space ++ word ++ more.text }, last)

/-- A plain scalar, and whether a key may follow it. -/
def readPlain (inFlow : Bool) (indent : Int) (c : Cursor) : Token × Bool × Cursor :=
  let (read, after) := plainText inFlow indent (c.rest.length + 1) [] c.mark false c
  (⟨.scalar (String.ofList read.text) true, c.mark, read.stop⟩, read.keyMayFollow, after)

/-! ## Blocks -/

/-- What becomes of the breaks at the end of a block. -/
inductive Chomping where
  | clip
  | strip
  | keep
deriving DecidableEq, Repr

/-- The sign of a way to treat the last breaks. -/
def chomping? (c : Char) : Option Chomping :=
  if c == '+' then some .keep else if c == '-' then some .strip else none

/-- The indentation that the head of a block asks for. -/
def readIncrement (c : Cursor) : Reading (Option Nat × Cursor) :=
  if !c.peek.isDigit then .ok (none, c)
  else if c.peek == '0' then c.fail .zeroIndent
  else .ok (some (c.peek.toNat - '0'.toNat), c.next)

/-- The signs in the head of a block, in either order. -/
def readBlockSigns (c : Cursor) : Reading ((Chomping × Option Nat) × Cursor) := do
  let (signs, c) ← match chomping? c.peek with
    | some k => do
      let (n, c) ← readIncrement c.next
      pure ((k, n), c)
    | none => do
      let (n, c) ← readIncrement c
      match n, chomping? c.peek with
      | some _, some k => pure ((k, n), c.next)
      | _, _ => pure ((.clip, n), c)
  if isSpaceOrEnd c.peek then return (signs, c) else c.failExpected .blockIndicator

/-- The breaks before the first line of a block with text, the deepest
indentation up to there, and where the last of the breaks ends. -/
def leadingBreaks : (fuel : Nat) → (deepest : Nat) → (stop : Mark) → Cursor →
    List (List Char) × Nat × Mark × Cursor
  | 0, deepest, stop, c => ([], deepest, stop, c)
  | fuel + 1, deepest, stop, c =>
    if c.peek == ' ' then leadingBreaks fuel (max deepest c.next.column) stop c.next
    else if isBreak c.peek then
      let (b, c) := c.lineBreak
      let (bs, rest) := leadingBreaks fuel deepest c.mark c
      (b :: bs, rest)
    else ([], deepest, stop, c)

/-- Up to `limit` columns of spaces. -/
def skipIndent (limit : Nat) : (fuel : Nat) → Cursor → Cursor
  | 0, c => c
  | fuel + 1, c => if c.column < limit && c.peek == ' ' then skipIndent limit fuel c.next else c

/-- The breaks before the next line of a block, and where the last of them ends. -/
def blockBreaks (indent : Nat) : (fuel : Nat) → (stop : Mark) → Cursor →
    List (List Char) × Mark × Cursor
  | 0, stop, c => ([], stop, c)
  | fuel + 1, stop, c =>
    let c := skipIndent indent indent c
    if isBreak c.peek then
      let (b, c) := c.lineBreak
      let (bs, rest) := blockBreaks indent fuel c.mark c
      (b :: bs, rest)
    else ([], stop, c)

structure BlockText where
  text : List Char
  /-- The break behind the last line with text. -/
  lastBreak : List Char
  /-- The breaks behind that one. -/
  breaks : List (List Char)
  stop : Mark

/-- The lines of a block. In a folded block a break between two lines that
start with no blank is folded. -/
def blockLines (folded : Bool) (indent : Nat) : (fuel : Nat) → BlockText → Cursor →
    BlockText × Cursor
  | 0, b, c => (b, c)
  | fuel + 1, b, c =>
    if c.column = indent ∧ c.peek ≠ endChar then
      let line := c.run (!isBreakOrEnd ·)
      let (brk, after) := (c.skip (!isBreakOrEnd ·)).lineBreak
      let (breaks, stop, after) := blockBreaks indent (after.rest.length + 1) after.mark after
      let text := b.text ++ b.breaks.flatten ++ line
      if after.column = indent ∧ after.peek ≠ endChar then
        let joint :=
          if folded && brk == ['\n'] && !isGap c.peek && !isGap after.peek then
            (if breaks.isEmpty then [' '] else [])
          else brk
        blockLines folded indent fuel ⟨text ++ joint, brk, breaks, stop⟩ after
      else (⟨text, brk, breaks, stop⟩, after)
    else (b, c)

/-- A block scalar in a collection of this indentation. -/
def readBlock (outer : Int) (c : Cursor) : Reading (Token × Cursor) := do
  let folded := c.peek == '>'
  let ((chomping, increment), body) ← readBlockSigns c.next
  let body ← body.endLine
  let least := (outer + 1).toNat.max 1
  let fuel := body.rest.length + 1
  let (indent, breaks, stop, body) := match increment with
    | some n =>
      let indent := least + n - 1
      let (breaks, stop, body) := blockBreaks indent fuel body.mark body
      (indent, breaks, stop, body)
    | none =>
      let (breaks, deepest, stop, body) := leadingBreaks fuel 0 body.mark body
      (max least deepest, breaks, stop, body)
  let (b, after) := blockLines folded indent fuel ⟨[], [], breaks, stop⟩ body
  let tail := match chomping with
    | .strip => []
    | .clip => b.lastBreak
    | .keep => b.lastBreak ++ b.breaks.flatten
  return (⟨.scalar (String.ofList (b.text ++ tail)) false, c.mark, b.stop⟩, after)

end JobChart.Yaml
