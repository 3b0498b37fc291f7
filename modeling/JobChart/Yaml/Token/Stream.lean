import JobChart.Yaml.Token.Scalar

/-!
# Token streams

The tokens of a whole text. Most signs are tokens by themselves; what takes
state is that a key is known as a key only when the `:` behind it is seen.
Until then the place where it may begin is kept as pending, one for each
level of flow collections, and the token that begins the key is put in at
that place afterwards.

A stream that fails still gives the tokens in front of the first pending
key, since nothing later can change them; the failure comes behind those.
-/

namespace JobChart.Yaml

/-- A place where a key may begin; `number` is the number of the token there. -/
structure PendingKey where
  number : Nat
  required : Bool
  mark : Mark
deriving DecidableEq, Repr

structure Scan where
  cursor : Cursor
  /-- The tokens so far, the latest first. -/
  tokens : List Token := []
  /-- How many flow collections are open; closing signs too many count below zero. -/
  flow : Int := 0
  /-- The column of the innermost open block collection, -1 outside of all. -/
  indent : Int := -1
  /-- The columns of the open block collections around it. -/
  outer : List Int := []
  keyAllowed : Bool := true
  /-- The pending keys with their level of flow collections. -/
  pending : List (Int × PendingKey) := []
  done : Bool := false

/-- The tokens of a text, and the failure behind them, if there is one. -/
structure TokenStream where
  tokens : List Token
  failure : Option Failure

namespace Scan

def inFlow (s : Scan) : Bool := s.flow != 0

/-- The tokens that are settled: those in front of the first pending key. -/
def settled (s : Scan) : List Token :=
  s.tokens.reverse.take ((s.pending.map (·.2.number)).foldl min s.tokens.length)

/-! ## Steps -/

def push (s : Scan) (t : Token) : Scan := { s with tokens := t :: s.tokens }

/-- One token more that takes no place. -/
def pushAt (s : Scan) (kind : TokenKind) (m : Mark) : Scan := s.push ⟨kind, m, m⟩

/-- One token more, over the next `n` characters. -/
def pushSign (s : Scan) (kind : TokenKind) (n : Nat) : Scan :=
  let after := s.cursor.advance n
  { s.push ⟨kind, s.cursor.mark, after.mark⟩ with cursor := after }

/-- A token put in front of the token with this number. -/
def insertAt (s : Scan) (number : Nat) (t : Token) : Scan :=
  let later := s.tokens.length - number
  { s with tokens := s.tokens.take later ++ t :: s.tokens.drop later }

/-- Whether a key may follow from now on. -/
def allowKey (s : Scan) (b : Bool) : Scan := { s with keyAllowed := b }

/-- Forgets the pending key of this level; a required one is missed. -/
def dropKey (s : Scan) : Except Failure Scan :=
  match s.pending.lookup s.flow with
  | some k =>
    if k.required then s.cursor.fail .keyWithoutValue
    else .ok { s with pending := s.pending.filter (·.1 != s.flow) }
  | none => .ok s

/-- Notes that a key may begin here. In a block, a text at the column of the
mapping has to be one. -/
def saveKey (s : Scan) : Except Failure Scan :=
  if s.keyAllowed then do
    let required := !s.inFlow && s.indent == s.cursor.column
    let s ← s.dropKey
    let key : PendingKey := ⟨s.tokens.length, required, s.cursor.mark⟩
    return { s with pending := (s.flow, key) :: s.pending }
  else .ok s

/-- Whether the place of a pending key is too far back: on another line, or
more than 1024 characters away. -/
def isStale (m : Mark) (k : PendingKey) : Bool :=
  k.mark.line != m.line || k.mark.index + 1024 < m.index

/-- Forgets the pending keys that are too far back; a required one is missed. -/
def dropStale (s : Scan) : Except Failure Scan :=
  let stale := s.pending.filter fun k => isStale s.cursor.mark k.2
  if stale.any (·.2.required) then s.cursor.fail .keyWithoutValue
  else .ok { s with pending := s.pending.filter fun k => !isStale s.cursor.mark k.2 }

/-- Ends the block collections deeper than a column. -/
def unwind (column : Int) (s : Scan) : Scan :=
  if s.inFlow then s else go s.outer s
where
  /-- Ends collections while `outer` says what is around them. -/
  go : List Int → Scan → Scan
    | [], s => s
    | i :: outer, s =>
      if column < s.indent then
        go outer ({ s with indent := i, outer := outer }.pushAt .blockEnd s.cursor.mark)
      else s

/-- Opens a block collection at a column, unless one is open there. -/
def openBlock (column : Nat) (s : Scan) : Bool × Scan :=
  if s.indent < column then (true, { s with indent := column, outer := s.indent :: s.outer })
  else (false, s)

/-- Opens a block collection here; `problem` if none may begin here. -/
def openHere (kind : TokenKind) (problem : Problem) (s : Scan) : Except Failure Scan :=
  if s.inFlow then .ok s
  else if !s.keyAllowed then s.cursor.fail problem
  else
    let (opened, s) := s.openBlock s.cursor.column
    .ok (if opened then s.pushAt kind s.cursor.mark else s)

/-! ## Tokens -/

/-- Blanks, comments and line breaks in front of a token. A new line in a
block may begin with a key. -/
def skipBlank : (fuel : Nat) → Scan → Scan
  | 0, s => s
  | fuel + 1, s =>
    let c := (s.cursor.skip (· == ' ')).skipComment
    if isBreak c.peek then
      skipBlank fuel { s with cursor := c.lineBreak.2, keyAllowed := s.keyAllowed || !s.inFlow }
    else { s with cursor := c }

def streamEnd (s : Scan) : Except Failure Scan := do
  let s ← (s.unwind (-1)).dropKey
  return { (s.allowKey false).pushAt .streamEnd s.cursor.mark with pending := [], done := true }

/-- A line that speaks about the document. -/
def directive (s : Scan) : Except Failure Scan := do
  let s ← (s.unwind (-1)).dropKey
  let (t, c) ← readDirective s.cursor
  return { (s.allowKey false).push t with cursor := c }

def separator (kind : TokenKind) (s : Scan) : Except Failure Scan := do
  let s ← (s.unwind (-1)).dropKey
  return (s.allowKey false).pushSign kind 3

def openFlow (kind : TokenKind) (s : Scan) : Except Failure Scan := do
  let s ← s.saveKey
  return ({ s with flow := s.flow + 1 }.allowKey true).pushSign kind 1

def closeFlow (kind : TokenKind) (s : Scan) : Except Failure Scan := do
  let s ← s.dropKey
  return ({ s with flow := s.flow - 1 }.allowKey false).pushSign kind 1

def flowEntry (s : Scan) : Except Failure Scan := do
  let s ← (s.allowKey true).dropKey
  return s.pushSign .flowEntry 1

/-- The sign of an item of a block sequence. -/
def blockEntry (s : Scan) : Except Failure Scan := do
  let s ← s.openHere .blockSequence .misplacedEntry
  let s ← (s.allowKey true).dropKey
  return s.pushSign .blockEntry 1

def keySign (s : Scan) : Except Failure Scan := do
  let s ← s.openHere .blockMapping .misplacedKey
  let s ← (s.allowKey (!s.inFlow)).dropKey
  return s.pushSign .key 1

/-- The sign of a value. With a pending key, that key is one now. -/
def valueSign (s : Scan) : Except Failure Scan :=
  match s.pending.lookup s.flow with
  | some k =>
    let s := { s with pending := s.pending.filter (·.1 != s.flow) }
    let s := s.insertAt k.number ⟨.key, k.mark, k.mark⟩
    let s :=
      if s.inFlow then s
      else
        let (opened, s) := s.openBlock k.mark.column
        if opened then s.insertAt k.number ⟨.blockMapping, k.mark, k.mark⟩ else s
    .ok ((s.allowKey false).pushSign .value 1)
  | none => do
    let s ← s.openHere .blockMapping .misplacedValue
    let s ← (s.allowKey (!s.inFlow)).dropKey
    return s.pushSign .value 1

/-- A token that may begin a key: `read` gives it and the cursor behind it. -/
def keyToken (read : Cursor → Except Failure (Token × Cursor)) (s : Scan) :
    Except Failure Scan := do
  let s ← s.saveKey
  let (t, c) ← read s.cursor
  return { (s.allowKey false).push t with cursor := c }

def anchorToken (kind : String → TokenKind) (c : Cursor) : Except Failure (Token × Cursor) := do
  let (name, after) ← readAnchorName c
  return (⟨kind name, c.mark, after.mark⟩, after)

def tagToken (c : Cursor) : Except Failure (Token × Cursor) := do
  let (t, after) ← readTag c
  return (⟨.tag t, c.mark, after.mark⟩, after)

def blockScalar (s : Scan) : Except Failure Scan := do
  let s ← (s.allowKey true).dropKey
  let (t, c) ← readBlock s.indent s.cursor
  return { s.push t with cursor := c }

def plainScalar (s : Scan) : Except Failure Scan := do
  let s ← s.saveKey
  let (t, mayFollow, c) := readPlain s.inFlow (s.indent + 1) s.cursor
  return { (s.allowKey mayFollow).push t with cursor := c }

def startsPlain (s : Scan) : Bool :=
  let ch := s.cursor.peek
  !(isSeparator ch || "-?:,[]\x7b\x7d#&*!|>'\"%@\x60".toList.contains ch)
    || (!isSeparator (s.cursor.peekAt 1)
      && (ch == '-' || (!s.inFlow && (ch == '?' || ch == ':'))))

/-- The next token, at a place where one begins. -/
def token (s : Scan) : Except Failure Scan :=
  let c := s.cursor
  let ch := c.peek
  let apart := isSeparator (c.peekAt 1)
  if ch == endChar then s.streamEnd
  else if ch == '%' && c.column == 0 then s.directive
  else if c.column == 0 && c.atMark '-' then s.separator .documentStart
  else if c.column == 0 && c.atMark '.' then s.separator .documentEnd
  else if ch == '[' then s.openFlow .flowSequence
  else if ch == '\x7b' then s.openFlow .flowMapping
  else if ch == ']' then s.closeFlow .flowSequenceEnd
  else if ch == '\x7d' then s.closeFlow .flowMappingEnd
  else if ch == ',' then s.flowEntry
  else if ch == '-' && apart then s.blockEntry
  else if ch == '?' && (s.inFlow || apart) then s.keySign
  else if ch == ':' && (s.inFlow || apart) then s.valueSign
  else if ch == '*' then s.keyToken (anchorToken .aliasOf)
  else if ch == '&' then s.keyToken (anchorToken .anchor)
  else if ch == '!' then s.keyToken tagToken
  else if (ch == '|' || ch == '>') && !s.inFlow then s.blockScalar
  else if ch == '\'' || ch == '"' then s.keyToken readQuotedScalar
  else if s.startsPlain then s.plainScalar
  else c.fail (.strayChar ch)

/-- Goes on to the next token and takes it. -/
def step (s : Scan) : Except Failure Scan := do
  let s ← (skipBlank (s.cursor.rest.length + 1) s).dropStale
  (s.unwind s.cursor.column).token

/-- All tokens from here on; `last` is the state that was settled last. -/
def all : (fuel : Nat) → (last : Scan) → Scan → TokenStream
  | 0, last, _ => ⟨last.settled, none⟩
  | fuel + 1, last, s =>
    if s.done then ⟨s.tokens.reverse, none⟩
    else
      match s.dropStale with
      | .error e => ⟨last.settled, some e⟩
      | .ok s =>
        match s.step with
        | .error e => ⟨s.settled, some e⟩
        | .ok next => all fuel s next

end Scan

def isDocumentChar (c : Char) : Bool :=
  let n := c.toNat
  n == 9 || n == 10 || n == 13 || (0x20 ≤ n && n ≤ 0x7E) || n == 0x85
    || (0xA0 ≤ n && n ≤ 0xD7FF) || (0xE000 ≤ n && n ≤ 0xFFFD) || 0x10000 ≤ n

/-- The first character that a document may not hold, and its position. -/
def firstUnprintable? : (position : Nat) → List Char → Option (Char × Nat)
  | _, [] => none
  | i, c :: cs => if isDocumentChar c then firstUnprintable? (i + 1) cs else some (c, i)

/-- The tokens of a text. A byte order mark in front does not count. -/
def TokenStream.ofText (text : List Char) : TokenStream :=
  match firstUnprintable? 0 text with
  | some (c, i) => ⟨[], some (.unprintable c i)⟩
  | none =>
    let start : Cursor := { rest := text }
    let start := if start.peek == '\uFEFF' then start.next else start
    Scan.all (text.length + 2) { cursor := start } { cursor := start }

end JobChart.Yaml
