import PatternAnatomy.Command.Run

namespace PatternAnatomy.Command

def usage : String :=
  "Usage: regex-hl [-c FILE] parse PATTERN [-f ansi|tokens|json|tree]\n" ++
  "       regex-hl [-c FILE] scan PATH\n"

/-- Why a file could not be read: where a part of its name was of the wrong kind the name is told,
where it was opened and then found to be a directory it is not. -/
def faultOf : IO.Error → Files.Fault
  | .inappropriateType (some _) .. => .notDirectory
  | .inappropriateType none .. => .isDirectory
  | .invalidArgument .. => .nameTooLong
  | .permissionDenied .. => .refused
  | .userError _ => .notText
  | _ => .missing

def readOne (name : Text) : IO (Except Files.Fault Text) := do
  try
    return .ok (← IO.FS.readFile (String.ofList name)).toList
  catch error => return .error (faultOf error)

/-- What reading gives under the names that the command may ask for. -/
def readNeeded (names : List Text) : IO Files := do
  let results ← names.mapM readOne
  return fun name => ((names.zip results).lookup name).getD (.error .missing)

def neededFiles (home : Text) (config : Option Text) (request : Request) : List Text :=
  let settings := match config with
    | some name => (name :: (Files.tomlName? name).toList).map (Files.fullName home)
    | none => []
  match request with
  | .scan path => path :: settings
  | .parse .. => settings

def execute (config : Option Text) (request : Request) : IO UInt32 := do
  let out ← IO.getStdout
  let noColor ← IO.getEnv "NO_COLOR"
  let screen : Screen := ⟨← out.isTty, noColor.getD "" == ""⟩
  let home := (← IO.currentDir).toString.toList
  let report := run (← readNeeded (neededFiles home config request)) home screen config request
  out.putStr (String.ofList report.out)
  (← IO.getStderr).putStr (String.ofList report.err)
  return UInt32.ofNat report.code

end PatternAnatomy.Command

open PatternAnatomy.Command in
def main (args : List String) : IO UInt32 := do
  match parseArguments (args.map String.toList) with
  | some .version => IO.print (String.ofList versionText); return 0
  | some .help => IO.print usage; return 0
  | some (.run config request) => execute config request
  | none => IO.eprint usage; return 2
