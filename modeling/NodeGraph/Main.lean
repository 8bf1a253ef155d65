import NodeGraph.CommandLine

/-!
The program: reads the files that the arguments name, runs the command, and prints.
-/

namespace NodeGraph.CommandLine

def readFile? (path : String) : IO (Option (String × String)) := do
  try
    return some (path, ← IO.FS.readFile path)
  catch _ =>
    return none

end NodeGraph.CommandLine

open NodeGraph in
def main (arguments : List String) : IO UInt32 := do
  let start ← IO.monoMsNow
  let files := (← arguments.mapM CommandLine.readFile?).filterMap id
  match CommandLine.run files arguments with
  | .ok transcript =>
      let code := transcript.code.toUInt32
      let stop ← IO.monoMsNow
      IO.print (transcript.outputText (natText (stop - start)))
      IO.eprint transcript.errorText
      return code
  | .error fault =>
      IO.eprintln ("fault: " ++ fault.message)
      return 101
