import JobChart.Cli.Run
import JobChart.Cli.Standard

/-!
# The command

Does in the world what `Cli.plan` says, one deed after the other.
-/

open JobChart.Cli

partial def readAll (s : IO.FS.Stream) (bytes : ByteArray) : IO ByteArray := do
  let more ← s.read 65536
  if more.isEmpty then return bytes else readAll s (bytes ++ more)

def readFile? (p : Path) : IO (Option (List UInt8)) := do
  try
    return some (← IO.FS.readBinFile p.text).toList
  catch _ => return none

def readWorkflow (host : Host) (name : String) : IO (Except JobChart.Cli.ReadError String) := do
  if name = stdinName then
    return sourceOf (host.decodeInput (← readAll (← IO.getStdin) ByteArray.empty).toList)
  let p := Path.ofText name
  return fileSource p (← readFile? p)

/-- Does a deed; a text that cannot be encoded ends the run. -/
def act (host : Host) : Deed → IO Unit
  | .complain s => do (← IO.getStderr).putStr s
  | .print s => do
    if let some f := host.printFault? s then throw (IO.userError f.message)
    (← IO.getStdout).putStr s
  | .save p s => do
    IO.FS.createDirAll p.parent.text
    IO.FS.writeBinFile p.text ⟨(host.bytesOf s).toArray⟩
    if let some f := host.saveFault? s then throw (IO.userError f.message)

def main (words : List String) : IO UInt32 := do
  let host := Host.standard
  match ← plan host.load (readWorkflow host) words with
  | .ok r =>
    r.deeds.forM (act host)
    return r.code.toUInt32
  | .error (.fault f) => throw (IO.userError f.message)
  | .error (.write e) => throw (IO.userError e.message)
