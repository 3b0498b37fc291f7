import JobChart.Fault
import JobChart.Text.Utf8

/-!
# What the command is given

The reader of documents and the encodings of the process are not part of the
command. They are the same all through a process, as is the order in which the
reader lists the items of a set. Files are read and written as UTF-8, whatever
the process is set to. A text can hold what an encoding has no bytes for, so
printing and saving may fail; what is said on the standard error is always
written in some form.
-/

namespace JobChart.Cli

structure DecodeError where
  reason : String
  start : Nat
deriving DecidableEq, Repr

/-- What the command is given by the process it runs in. -/
structure Host where
  load : Loader
  /-- The text of the bytes on standard input. -/
  decodeInput : List UInt8 → Except DecodeError String
  /-- What keeps a text from being encoded for standard output. -/
  printFault? : String → Option Fault
  /-- What keeps a text from being encoded for a file. -/
  saveFault? : String → Option Fault

def decodeFile (bytes : List UInt8) : Except DecodeError String :=
  (Text.decodeUtf8 bytes).mapError fun e => ⟨e.reason.message, e.start⟩

end JobChart.Cli
