import SchemaForms.CommandLine.Run
import SchemaForms.Files.Directory

/-!
The program itself. All files that the schema refers to are read before the run, which then needs
nothing else; reading more files than the run looks at changes nothing.
-/

namespace SchemaForms.Program

def reason : IO.Error → String
  | .noFileOrDirectory .. => PathError.missing.message
  | .inappropriateType _ code _ =>
    if code = 21 || code = 0 - 21 then PathError.isADirectory.message
    else PathError.notADirectory.message
  | error@(.invalidArgument _ code _) =>
    if code = 0 - 36 then PathError.tooLong.message else toString error
  | error => toString error

abbrev Readings := List (String × Except String SchemaSource)

def readSource (path : String) : IO (Except String SchemaSource) := do
  try
    let text ← IO.FS.readFile path
    return .ok ⟨(← IO.FS.realPath path).toString, text⟩
  catch error => return .error (reason error)

/-- Reads files and, after them, the files that they refer to. -/
partial def gather (allowsDoctype : Bool) (readings : Readings) : List String → IO Readings
  | [] => return readings
  | path :: paths => do
    if (readings.lookup path).isSome then gather allowsDoctype readings paths
    else
      let result ← readSource path
      let references := result.toOption.toList.flatMap (SchemaSource.references allowsDoctype)
      gather allowsDoctype (readings ++ [(path, result)]) (paths ++ references)

def readings (options : Options) : IO Readings := do
  let result ← readSource options.input
  let references := result.toOption.toList.flatMap fun source =>
    SchemaSource.references options.allowsDoctype ⟨options.input, source.text⟩
  let first := (options.input, result) ::
    (← options.record.toList.mapM fun path => return (path, ← readSource path))
  gather options.allowsDoctype first references

def report (verbosity : Nat) (report : Report) : IO Unit := do
  let shown := report.messages.filter fun message => message.isWarning || 0 < verbosity
  for message in shown do
    IO.eprintln ((if message.isWarning then " WARN " else "DEBUG ") ++ message.text)
  match report.result with
  | .ok _ => return
  | .error error => IO.eprintln ("ERROR " ++ error.line)

def finish (exit : Exit) : IO UInt32 := do
  IO.print exit.output
  return UInt32.ofNat exit.code

def run (arguments : List String) : IO UInt32 := do
  match Options.parse arguments with
  | .error stop =>
    if stop = .misuse then IO.eprintln Options.usage
    finish stop.exit
  | .ok options =>
    let result := options.run (.ofReadings (← readings options))
    report options.verbosity result
    finish result.exit

end SchemaForms.Program

def main (arguments : List String) : IO UInt32 := SchemaForms.Program.run arguments
