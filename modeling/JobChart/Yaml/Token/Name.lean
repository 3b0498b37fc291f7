import JobChart.Decimal.Reader
import JobChart.Yaml.Cursor
import JobChart.Yaml.Token

/-!
# Names, tags and directives

The tokens that name something: anchors and aliases, tags, and the lines
that start with `%`.
-/

namespace JobChart.Yaml

open Text

/-- Reading that may fail. A reader of tokens gives what it read and the cursor behind it. -/
abbrev Reading := Except Failure

/-! ## Names -/

def readName (c : Cursor) : Reading (String × Cursor) :=
  match c.run isNameChar with
  | [] => c.failExpected .nameChar
  | name => .ok (String.ofList name, c.skip isNameChar)

def endsName (c : Char) : Bool := isSeparator c || "?:,]\x7d%@\x60".toList.contains c

/-- The name behind the sign of an anchor or an alias. -/
def readAnchorName (c : Cursor) : Reading (String × Cursor) := do
  let (name, c) ← readName c.next
  if endsName c.peek then return (name, c) else c.failExpected .nameChar

/-! ## Tags -/

def isUriChar (c : Char) : Bool :=
  c.isAlphanum || "-;/?:@&=+$,_.!~*'()[]%".toList.contains c

/-- The bytes of a run of escapes such as `%C3%A9`. -/
def uriBytes : (fuel : Nat) → Cursor → Reading (List UInt8 × Cursor)
  | 0, c => .ok ([], c)
  | fuel + 1, c =>
    if c.peek != '%' then .ok ([], c)
    else
      let c := c.next
      let (a, b) := (c.peek, c.peekAt 1)
      if !isHexDigit a then c.fail (.expected .uriEscape a)
      else if !isHexDigit b then c.fail (.expected .uriEscape b)
      else do
        let byte := (Decimal.natOf? 16 [a, b]).getD 0
        let (bytes, c) ← uriBytes fuel (c.advance 2)
        return (UInt8.ofNat byte :: bytes, c)

/-- The text that a run of escapes stands for. -/
def readUriEscapes (c : Cursor) : Reading (List Char × Cursor) := do
  let (bytes, after) ← uriBytes c.rest.length c
  match decodeUtf8 bytes with
  | .ok s => return (s.toList, after)
  | .error e => c.fail (.badUriEscape e)

/-- The text of a tag, as far as it goes. -/
def uriText : (fuel : Nat) → Cursor → Reading (List Char × Cursor)
  | 0, c => .ok ([], c)
  | fuel + 1, c =>
    if c.peek == '%' then do
      let (cs, c) ← readUriEscapes c
      let (more, c) ← uriText fuel c
      return (cs ++ more, c)
    else if isUriChar c.peek then do
      let (more, after) ← uriText fuel c.next
      return (c.peek :: more, after)
    else .ok ([], c)

/-- The text of a tag, at least one character. -/
def readUri (c : Cursor) : Reading (String × Cursor) :=
  if isUriChar c.peek then do
    let (cs, c) ← uriText (c.rest.length + 1) c
    return (String.ofList cs, c)
  else c.failExpected .uri

/-- A handle: `!`, `!!`, or a name between two marks. -/
def readHandle (c : Cursor) : Reading (String × Cursor) :=
  if c.peek != '!' then c.failExpected .tagMark
  else if c.peekAt 1 == ' ' then .ok ("!", c.next)
  else
    let name := c.next.run isNameChar
    let after := c.next.skip isNameChar
    if after.peek == '!' then .ok (String.ofList ('!' :: name ++ ['!']), after.next)
    else after.failExpected .tagMark

/-- Whether a second `!` stands before the next blank. -/
def hasHandle (c : Cursor) : Bool :=
  ((c.next.run (!isSpaceOrEnd ·)).contains '!')

/-- A tag, whatever follows it. -/
def readTagName (c : Cursor) : Reading (TagName × Cursor) := do
  let ahead := c.peekAt 1
  if ahead == '<' then
    let (suffix, c) ← readUri (c.advance 2)
    if c.peek == '>' then return (⟨none, suffix⟩, c.next) else c.failExpected .tagClose
  else if isSeparator ahead then return (⟨none, "!"⟩, c.next)
  else
    let (handle, c) ← if hasHandle c then readHandle c else pure ("!", c.next)
    let (suffix, c) ← readUri c
    return (⟨some handle, suffix⟩, c)

/-- A tag; a space, a line break or the end must follow. -/
def readTag (c : Cursor) : Reading (TagName × Cursor) := do
  let (tag, c) ← readTagName c
  if isSpaceOrEnd c.peek then return (tag, c) else c.failExpected .blank

/-! ## Directives -/

def readDigits (c : Cursor) : Reading (Nat × Cursor) :=
  match c.run Char.isDigit with
  | [] => c.failExpected .digit
  | ds => .ok (Nat.ofDigitChars 10 ds 0, c.skip Char.isDigit)

def readVersion (c : Cursor) : Reading (Directive × Cursor) := do
  let (major, c) ← readDigits (c.skip (· == ' '))
  if c.peek != '.' then c.failExpected .digitOrDot
  else
    let (minor, c) ← readDigits c.next
    if isSpaceOrEnd c.peek then return (.version major minor, c) else c.failExpected .digitOrBlank

def readHandleDirective (c : Cursor) : Reading (Directive × Cursor) := do
  let (handle, c) ← readHandle (c.skip (· == ' '))
  if c.peek != ' ' then c.failExpected .blank
  else
    let (expansion, c) ← readUri (c.skip (· == ' '))
    if isSpaceOrEnd c.peek then return (.handle handle expansion, c) else c.failExpected .blank

/-- A directive; one of an unknown name is passed over. The token ends
before the rest of the line. -/
def readDirective (c : Cursor) : Reading (Token × Cursor) := do
  let (name, after) ← readName c.next
  if !isSpaceOrEnd after.peek then after.failExpected .nameChar
  else
    let (d, stop, after) ← match name with
      | "YAML" => do
        let (d, after) ← readVersion after
        pure (d, after.mark, after)
      | "TAG" => do
        let (d, after) ← readHandleDirective after
        pure (d, after.mark, after)
      | _ => pure (Directive.other, after.mark, after.skip (!isBreakOrEnd ·))
    return (⟨.directive d, c.mark, stop⟩, ← after.endLine)

end JobChart.Yaml
