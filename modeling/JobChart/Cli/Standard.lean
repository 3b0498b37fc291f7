import JobChart.Cli.Host
import JobChart.Text.Surrogate
import JobChart.Yaml.Document

/-!
# Processes

The reader of documents that the command comes with, in a process that is set
to UTF-8. Such a process may also be set to pass lone surrogates through on its
standard output; files are written strictly all the same.
-/

namespace JobChart.Cli.Host

open Text

/-- A process set to strict UTF-8. -/
def standard : Host where
  load := Yaml.loader
  decodeInput := decodeFile
  printFault? := utf8Fault?
  saveFault? := utf8Fault?

/-- A process that passes surrogates through on its standard output. -/
def passing : Host := { standard with printFault? := fun _ => none }

end JobChart.Cli.Host
