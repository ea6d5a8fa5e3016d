import Featurize.CommandLine

/-!
The program. It reads the files that the arguments name, hands their texts to the
command line, and writes what comes of it. Log lines of warnings and errors go to
the error channel, all of them when asked.
-/

namespace Featurize.Program

/-- What is found at a path. A file is read up to the first byte that is not UTF-8, where
every reader stops that has not come to the end of a value before; what can be opened but
not read is a directory. -/
def readFile (path : String) : IO FileContent := do
  let opened ← try pure (some (← IO.FS.Handle.mk path .read)) catch _ => pure none
  match opened with
  | none => return .missing
  | some file =>
      try
        let bytes ← file.readBinToEnd
        return .text (Text.leading bytes)
      catch _ => return .directory

def writeLog (verbose : Bool) (effects : List Effect) : IO Unit :=
  for event in effects.filterMap Effect.event? do
    let line := event.line
    if verbose || line.severity = .warn || line.severity = .error then
      IO.eprintln line.text

/-- Writes the output and the error lines, and gives the exit code. -/
def finish (path : String) (transcript : Transcript) : IO UInt32 := do
  let transcript ←
    match transcript.output with
    | none => pure transcript
    | some text =>
        if path.isEmpty then
          IO.print text
          pure transcript
        else
          try
            IO.FS.writeFile path text
            pure transcript
          catch _ => pure (transcript.unwritable path)
  (← IO.getStderr).write transcript.errors.toBytes
  return transcript.exitCode.toUInt32

def run (arguments : List String) : IO UInt32 := do
  match Invocation.ofArguments {} arguments with
  | .error lines => finish "" (.refused lines)
  | .ok invocation =>
      let found ← invocation.paths.mapM fun path => return (path, ← readFile path)
      let transcript := invocation.run (fun path => (found.lookup path).getD .missing)
      writeLog invocation.verbose transcript.effects
      finish invocation.output transcript

end Featurize.Program

def main (arguments : List String) : IO UInt32 := Featurize.Program.run arguments
