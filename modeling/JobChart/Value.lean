import JobChart.Calendar
import JobChart.Decimal.Layout
import JobChart.Text.Join
import JobChart.Text.Quoted

/-!
# Document values

What a workflow document is made of once it is read: scalars of several
kinds, lists, and mappings whose entries stay in the order they were
written. Keys may be of any scalar kind; numbers and truth values are the
same key when they are equal as numbers, so `true`, `1` and `1.0` are one.

A value has two texts: `text` shows a string as it is, `literal` shows it
quoted, and values inside a collection are always shown as literals.

A document may name a collection and use the name inside that collection. A
value is a tree, so such a collection is followed a few levels; `again` marks
where a collection is met again and how far out it was met before. A text
shows it once and then as an ellipsis. What is taken out of a collection,
by `field?`, `entries?` or `items`, is never marked itself.

No integer of more than 4300 digits can be written. `literal` gives the text
that a value would have without this limit, and `isOverlong` tells where the
limit is passed; whoever writes a value has to look at both. The items of a
set come in the order in which they are listed by whoever read the document.
-/

namespace JobChart

open Text

inductive Value where
  | null
  | bool (b : Bool)
  | int (i : Int)
  | float (x : Float)
  | str (s : String)
  | list (items : List Value)
  | tuple (items : List Value)
  | map (entries : List (Value × Value))
  | date (d : Date)
  | datetime (t : DateTime)
  | bytes (bs : List UInt8)
  | set (items : List Value)
  /-- The collection `inside` is the same as the one `up` levels further out. -/
  | again (up : Nat) (inside : Value)
deriving Inhabited

namespace Value

/-! ## Keys -/

/-- The integer that a truth value or number equals. -/
def integer? : Value → Option Int
  | bool b => some (if b then 1 else 0)
  | int i => some i
  | float x => Decimal.integer? x
  | _ => none

/-- Whether two scalars are the same key. -/
def sameScalar (a b : Value) : Bool :=
  match a, b with
  | null, null => true
  | str s, str t => s == t
  | date d, date e => d == e
  | datetime t, datetime u => t.same u
  | bytes s, bytes t => s == t
  | float x, float y => x == y
  | a, b =>
    match integer? a, integer? b with
    | some i, some j => i == j
    | _, _ => false

mutual

/-- Whether two values are the same key; lists, mappings and sets are no keys. -/
def sameKey : Value → Value → Bool
  | tuple as, tuple bs => sameKeys as bs
  | a, b => sameScalar a b

def sameKeys : List Value → List Value → Bool
  | [], [] => true
  | a :: as, b :: bs => sameKey a b && sameKeys as bs
  | _, _ => false

end

/-! ## Mappings -/

def lookup (key : Value) (entries : List (Value × Value)) : Option Value :=
  (entries.find? fun e => sameKey key e.1).map (·.2)

/-- The entries with the value at a key put in. A key that is there already
keeps its place and its spelling; a new one comes last. -/
def insert (key value : Value) : List (Value × Value) → List (Value × Value)
  | [] => [(key, value)]
  | e :: es => if sameKey key e.1 then (e.1, value) :: es else e :: insert key value es

/-- The entries of these pairs, put in one after another. -/
def ofPairs (pairs : List (Value × Value)) : List (Value × Value) :=
  pairs.foldl (fun es p => insert p.1 p.2 es) []

/-- The value itself, without the mark of one met again. -/
def opened : Value → Value
  | again _ v => v.opened
  | v => v

def entries? : Value → Option (List (Value × Value))
  | map es => some (es.map fun e => (e.1, e.2.opened))
  | _ => none

/-- The items of a list; other values have none. -/
def items : Value → List Value
  | list vs => vs.map opened
  | _ => []

/-- The entry of a mapping under a key; other values have none. -/
def entry? (v key : Value) : Option Value := v.entries?.bind (lookup key)

/-- The entry of a mapping under a name, null when there is none. -/
def field (name : String) (v : Value) : Value := (v.entry? (str name)).getD null

def isNull : Value → Bool
  | null => true
  | _ => false

def isNaN : Value → Bool
  | float x => x.isNaN
  | _ => false

/-- Whether a value counts as true: it is not null, zero, or empty. -/
def isTruthy : Value → Bool
  | null => false
  | bool b => b
  | int i => i != 0
  | float x => !(x == 0.0)
  | str s => s != ""
  | list vs | tuple vs | set vs => !vs.isEmpty
  | map es => !es.isEmpty
  | bytes bs => !bs.isEmpty
  | again _ v => v.isTruthy
  | date _ | datetime _ => true

/-! ## Text -/

/-- How a collection is shown inside itself. -/
def ellipsis : Value → String
  | map _ => "\x7b...\x7d"
  | tuple _ => "(...)"
  | set _ => "set(...)"
  | _ => "[...]"

mutual

/-- The value as a literal inside of `depth` collections. -/
def literalAt (depth : Nat) : Value → String
  | null => "None"
  | bool b => if b then "True" else "False"
  | int i => toString i
  | float x => Decimal.Layout.document.write x
  | str s => quoted s
  | list vs => "[" ++ joinWith ", " (literalsAt (depth + 1) vs) ++ "]"
  | tuple vs =>
    match literalsAt (depth + 1) vs with
    | [s] => "(" ++ s ++ ",)"
    | ss => "(" ++ joinWith ", " ss ++ ")"
  | map es => "\x7b" ++ joinWith ", " (entryLiteralsAt (depth + 1) es) ++ "\x7d"
  | date d => d.literal
  | datetime t => t.literal
  | bytes bs => quotedBytes bs
  | set vs =>
    match literalsAt (depth + 1) vs with
    | [] => "set()"
    | ss => "\x7b" ++ joinWith ", " ss ++ "\x7d"
  | again up v => if up ≤ depth then v.ellipsis else literalAt depth v

def literalsAt (depth : Nat) : List Value → List String
  | [] => []
  | v :: vs => literalAt depth v :: literalsAt depth vs

def entryLiteralsAt (depth : Nat) : List (Value × Value) → List String
  | [] => []
  | (k, v) :: es =>
    (literalAt depth k ++ ": " ++ literalAt depth v) :: entryLiteralsAt depth es

end

def literal (v : Value) : String := v.literalAt 0

/-- The value as it is shown. -/
def text : Value → String
  | str s => s
  | date d => d.text
  | datetime t => t.text
  | v => v.literal

/-! ## Integers that cannot be written -/

/-- The least number with more digits than can be written. -/
def overlongBound : Nat := Nat.pow 10 4300

mutual

/-- Whether the literal of the value, inside of `depth` collections, shows an
integer that cannot be written. -/
def isOverlongAt (depth : Nat) : Value → Bool
  | int i => overlongBound ≤ i.natAbs
  | list vs | tuple vs | set vs => anyOverlongAt (depth + 1) vs
  | map es => anyEntryOverlongAt (depth + 1) es
  | again up v => depth < up && isOverlongAt depth v
  | null | bool _ | float _ | str _ | date _ | datetime _ | bytes _ => false

def anyOverlongAt (depth : Nat) : List Value → Bool
  | [] => false
  | v :: vs => isOverlongAt depth v || anyOverlongAt depth vs

def anyEntryOverlongAt (depth : Nat) : List (Value × Value) → Bool
  | [] => false
  | (k, v) :: es => isOverlongAt depth k || isOverlongAt depth v || anyEntryOverlongAt depth es

end

/-- Whether the text of the value would show an integer that cannot be written. -/
def isOverlong (v : Value) : Bool := v.isOverlongAt 0

end Value

end JobChart
