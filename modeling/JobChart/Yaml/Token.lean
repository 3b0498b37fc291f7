import JobChart.Yaml.Failure

/-!
# Tokens

The pieces a document's text falls into. Besides what is written, there are
tokens for what indentation says: where a block collection begins and ends,
and where a key begins.
-/

namespace JobChart.Yaml

/-- A tag as written: a handle that stands for the first part of the tag, and the rest of it. -/
structure TagName where
  handle : Option String
  suffix : String
deriving DecidableEq, Repr

/-- A line that speaks about the document. -/
inductive Directive where
  | version (major minor : Nat)
  | handle (name expansion : String)
  | other
deriving DecidableEq, Repr

inductive TokenKind where
  | directive (d : Directive)
  | documentStart
  | documentEnd
  | streamEnd
  | blockSequence
  | blockMapping
  | blockEnd
  | flowSequence
  | flowMapping
  | flowSequenceEnd
  | flowMappingEnd
  | key
  | value
  | blockEntry
  | flowEntry
  | aliasOf (name : String)
  | anchor (name : String)
  | tag (t : TagName)
  | scalar (text : String) (plain : Bool)
deriving DecidableEq, Repr

def TokenKind.name : TokenKind → String
  | directive _ => "<directive>"
  | documentStart => "<document start>"
  | documentEnd => "<document end>"
  | streamEnd => "<stream end>"
  | blockSequence => "<block sequence start>"
  | blockMapping => "<block mapping start>"
  | blockEnd => "<block end>"
  | flowSequence => "["
  | flowMapping => "\x7b"
  | flowSequenceEnd => "]"
  | flowMappingEnd => "\x7d"
  | key => "?"
  | value => ":"
  | blockEntry => "-"
  | flowEntry => ","
  | aliasOf _ => "<alias>"
  | anchor _ => "<anchor>"
  | tag _ => "<tag>"
  | scalar _ _ => "<scalar>"

structure Token where
  kind : TokenKind
  start : Mark
  stop : Mark
deriving DecidableEq, Repr

end JobChart.Yaml
