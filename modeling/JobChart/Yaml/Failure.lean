import JobChart.Calendar
import JobChart.Text.Base64
import JobChart.Text.Join
import JobChart.Text.Quoted
import JobChart.Text.Utf8

/-!
# Places and failures of reading

A place in a text and everything that can go wrong when a document is read:
problems of form with the place they were noticed at, a character that may
not occur, and scalars whose text does not fit their type.

`Failure.message` is the one line that is reported.
-/

namespace JobChart.Yaml

open Text

/-- A place in a text; lines and columns count from zero. -/
structure Mark where
  index : Nat := 0
  line : Nat := 0
  column : Nat := 0
deriving DecidableEq, Repr, Inhabited

/-- What was expected where another character stood. -/
inductive Expected where
  | nameChar
  | digitOrDot
  | digitOrBlank
  | digit
  | blank
  | commentOrBreak
  | tagClose
  | tagMark
  | uri
  | uriEscape
  | blockIndicator
  | escapeDigits (count : Nat)
deriving DecidableEq, Repr

def Expected.message : Expected → String
  | nameChar => "alphabetic or numeric character"
  | digitOrDot => "a digit or '.'"
  | digitOrBlank => "a digit or ' '"
  | digit => "a digit"
  | blank => "' '"
  | commentOrBreak => "a comment or a line break"
  | tagClose => "'>'"
  | tagMark => "'!'"
  | uri => "URI"
  | uriEscape => "URI escape sequence of 2 hexadecimal numbers"
  | blockIndicator => "chomping or indentation indicators"
  | escapeDigits n => "escape sequence of " ++ toString n ++ " hexadecimal numbers"

/-- A problem of form; `found` names a kind of token or node. -/
inductive Problem where
  | expected (what : Expected) (found : Char)
  | strayChar (found : Char)
  | keyWithoutValue
  | misplacedEntry
  | misplacedKey
  | misplacedValue
  | zeroIndent
  | unclosedQuote
  | separatorInQuote
  | unknownEscape (found : Char)
  | badUriEscape (e : Utf8Error)
  | expectedDocument (found : String)
  | repeatedVersion
  | unknownVersion
  | repeatedHandle (handle : String)
  | unknownHandle (handle : String)
  | expectedContent (found : String)
  | unclosedBlock (found : String)
  | unclosedFlow (close found : String)
  | secondDocument
  | unknownAlias (name : String)
  | repeatedAnchor
  | expectedNode (kind found : String)
  | expectedSequence (found : String)
  | expectedPair (found : String)
  | expectedOneItem (count : Nat)
  | unusableKey
  | unknownTag (tag : String)
  | badMerge (found : String)
  | badMergeItem (found : String)
  | badBase64 (e : Base64Error)
  | nonAsciiBase64 (first last : Nat) (found : Char)
deriving DecidableEq, Repr

def Problem.message : Problem → String
  | expected what c => "expected " ++ what.message ++ ", but found " ++ quoted (String.singleton c)
  | strayChar c =>
    "found character " ++ quoted (String.singleton c) ++ " that cannot start any token"
  | keyWithoutValue => "could not find expected ':'"
  | misplacedEntry => "sequence entries are not allowed here"
  | misplacedKey => "mapping keys are not allowed here"
  | misplacedValue => "mapping values are not allowed here"
  | zeroIndent => "expected indentation indicator in the range 1-9, but found 0"
  | unclosedQuote => "found unexpected end of stream"
  | separatorInQuote => "found unexpected document separator"
  | unknownEscape c => "found unknown escape character " ++ quoted (String.singleton c)
  | badUriEscape e => e.message
  | expectedDocument t => "expected '<document start>', but found " ++ quoted t
  | repeatedVersion => "found duplicate YAML directive"
  | unknownVersion => "found incompatible YAML document (version 1.* is required)"
  | repeatedHandle h => "duplicate tag handle " ++ quoted h
  | unknownHandle h => "found undefined tag handle " ++ quoted h
  | expectedContent t => "expected the node content, but found " ++ quoted t
  | unclosedBlock t => "expected <block end>, but found " ++ quoted t
  | unclosedFlow close t => "expected ',' or '" ++ close ++ "', but got " ++ quoted t
  | secondDocument => "but found another document"
  | unknownAlias name => "found undefined alias " ++ quoted name
  | repeatedAnchor => "second occurrence"
  | expectedNode kind n => "expected a " ++ kind ++ " node, but found " ++ n
  | expectedSequence n => "expected a sequence, but found " ++ n
  | expectedPair n => "expected a mapping of length 1, but found " ++ n
  | expectedOneItem n => "expected a single mapping item, but found " ++ toString n ++ " items"
  | unusableKey => "found unhashable key"
  | unknownTag tag => "could not determine a constructor for the tag " ++ quoted tag
  | badMerge n => "expected a mapping or list of mappings for merging, but found " ++ n
  | badMergeItem n => "expected a mapping for merging, but found " ++ n
  | badBase64 e => "failed to decode base64 data: " ++ e.message
  | nonAsciiBase64 first last c =>
    let place :=
      if first = last then
        "character '" ++ String.ofList (escapeIn '\'' (fun _ => false) c) ++ "' in position "
          ++ toString first
      else "characters in position " ++ toString first ++ "-" ++ toString last
    "failed to convert base64 data into ascii: 'ascii' codec can't encode " ++ place
      ++ ": ordinal not in range(128)"

/-- A scalar whose text does not fit its type. -/
inductive ScalarError where
  | badInteger (base : Nat) (text : String)
  | tooManyDigits (count : Nat)
  | badFloat (text : String)
  | emptyNumber
  | tooLarge
  | unknownBool (word : String)
  | badDate (e : CalendarError)
  | notTimestamp
  | timestampNotText
  | codePointRange
  | codePointSize
deriving DecidableEq, Repr

/-- The length at which the literal of a text that is no integer is cut. -/
def literalLimit : Nat := 200

def ScalarError.message : ScalarError → String
  | badInteger base t =>
    "invalid literal for int() with base " ++ toString base ++ ": " ++ cut literalLimit (quoted t)
  | tooManyDigits n =>
    "Exceeds the limit (4300 digits) for integer string conversion: value has " ++ toString n
      ++ " digits; use sys.set_int_max_str_digits() to increase the limit"
  | badFloat t => "could not convert string to float: " ++ quoted t
  | emptyNumber => "string index out of range"
  | tooLarge => "int too large to convert to float"
  | unknownBool w => quoted w
  | badDate e => e.message
  | notTimestamp => "'NoneType' object has no attribute 'groupdict'"
  | timestampNotText => "expected string or bytes-like object, got 'list'"
  | codePointRange => "chr() arg not in range(0x110000)"
  | codePointSize => "Python int too large to convert to C int"

def ScalarError.kind : ScalarError → String
  | emptyNumber => "IndexError"
  | unknownBool _ => "KeyError"
  | notTimestamp => "AttributeError"
  | timestampNotText => "TypeError"
  | tooLarge | codePointSize => "OverflowError"
  | badInteger .. | tooManyDigits _ | badFloat _ | badDate _ | codePointRange => "ValueError"

inductive Failure where
  | problem (p : Problem) (mark : Mark)
  | unprintable (c : Char) (position : Nat)
  | scalar (e : ScalarError)
deriving DecidableEq, Repr

/-- The failure in one line; a problem of form with its line and column from one. -/
def Failure.message : Failure → String
  | problem p m =>
    p.message ++ " (line " ++ toString (m.line + 1) ++ ", column " ++ toString (m.column + 1)
      ++ ")"
  | unprintable c position =>
    let digits := Nat.toDigits 16 c.toNat
    let code := List.replicate (4 - digits.length) '0' ++ digits
    "unacceptable character #x" ++ String.ofList code
      ++ ": special characters are not allowed in \"<unicode string>\", position "
      ++ toString position
  | scalar e => e.message

end JobChart.Yaml
