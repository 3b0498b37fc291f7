import JobChart.Value

/-!
# Faults

What goes wrong below the program: in the reader of documents, which it is
given, and where a value cannot be written. The program looks at the kind of
such a fault nowhere. Only of a reader it tells problems of the text, which the
reader reports on purpose, from any other fault.
-/

namespace JobChart

/-- A fault by the name of its kind, with what it says. -/
structure Fault where
  kind : String
  message : String
deriving DecidableEq, Repr

/-- An integer that cannot be written. -/
def Fault.overlong : Fault where
  kind := "ValueError"
  message :=
    "Exceeds the limit (4300 digits) for integer string conversion; "
      ++ "use sys.set_int_max_str_digits() to increase the limit"

inductive LoadError where
  | problem (message : String)
  | fault (f : Fault)
deriving DecidableEq, Repr

def LoadError.message : LoadError → String
  | problem m => m
  | fault f => f.message

abbrev Loader := String → Except LoadError Value

end JobChart
