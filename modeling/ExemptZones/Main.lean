import ExemptZones.Command.Run

/-
The program: it runs the words of its command line on the files of the machine, of which it sees those whose names are
texts. What was logged and what went wrong untold goes to the error output.
-/

namespace ExemptZones

instance : Files IO where
  look name := do
    let some path := Utf8.decode? name | return .absent
    let p := (← IO.currentDir) / path
    if ← p.isDir then return .directory
    if ← p.pathExists then return .file (← IO.FS.readBinFile p).data.toList
    return .absent
  write name b := do
    let some path := Utf8.decode? name | throw (IO.userError "the name of the file is no text")
    IO.FS.writeBinFile path ⟨b.toArray⟩

/-- What is said beside the output. -/
def Ending.aside? : Ending → Option Text
  | .stopped f => some f.describe
  | .misused m => some m.message
  | _ => none

end ExemptZones

open ExemptZones in
def main (words : List String) : IO UInt32 := do
  let config := (← IO.getEnv "TAXEXEMPT_CONFIG").getD ""
  let directory := (← IO.currentDir).toString
  let r ← run { directory := directory, config := config } (words.map .plain)
  for e in r.log do
    IO.eprintln e.message.legible
  IO.print r.output
  if let some text := r.ending.aside? then
    IO.eprintln text.legible
  return r.ending.exitCode.toUInt32
