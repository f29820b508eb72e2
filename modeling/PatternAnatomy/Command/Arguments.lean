import PatternAnatomy.Settings

namespace PatternAnatomy.Command

inductive Request where
  | parse (pattern : Text) (format : Option OutputFormat)
  | scan (path : Text)
deriving DecidableEq

inductive Invocation where
  | run (config : Option Text) (request : Request)
  | version
  | help
deriving DecidableEq

inductive Flag where
  | config | format | help | version
deriving DecidableEq

inductive Subcommand where
  | parse | scan
deriving DecidableEq

namespace Flag

def short : Flag → Char
  | config => 'c'
  | format => 'f'
  | help => 'h'
  | version => 'V'

def long : Flag → Text
  | config => "config".toList
  | format => "format".toList
  | help => "help".toList
  | version => "version".toList

/-- The options that are known where `sub` has been named, or nothing yet. -/
def known : Option Subcommand → List Flag
  | none => [config, help, version]
  | some .parse => [config, format, help]
  | some .scan => [config, help]

end Flag

structure State where
  sub : Option Subcommand
  /-- Configuration files before and behind the subcommand. -/
  outerConfig : Option Text
  innerConfig : Option Text
  format : Option OutputFormat
  operand : Option Text
  /-- Whether the last option before the subcommand has a wrong value. -/
  flawed : Bool

namespace State

def start : State := ⟨none, none, none, none, none, false⟩

/-- Takes the value of an option. No option is given twice at one place, and no file has an empty
name. -/
def setValue? (s : State) (flag : Flag) (value : Text) : Option State :=
  match flag with
  | .config =>
    if value.isEmpty then none
    else if s.sub.isSome then
      if s.innerConfig.isSome then none else some { s with innerConfig := some value }
    else if s.outerConfig.isSome then none
    else some { s with outerConfig := some value }
  | .format =>
    match s.format, OutputFormat.ofName? value with
    | none, some f => some { s with format := some f }
    | _, _ => none
  | _ => none

/-- Takes an argument that is no option: the subcommand, or what it works on. -/
def setOperand? (s : State) (arg : Text) : Option State :=
  match s.sub with
  | none =>
    if arg = "parse".toList then some { s with sub := some .parse }
    else if arg = "scan".toList then some { s with sub := some .scan }
    else none
  | some .scan =>
    if s.operand.isSome ∨ arg.isEmpty then none else some { s with operand := some arg }
  | some .parse => if s.operand.isSome then none else some { s with operand := some arg }

/-- Takes the next argument as the value of an option. Before the subcommand a wrong one is kept in
mind. -/
def setNext? (s : State) (flag : Flag) (value : Text) : Option State :=
  match s.sub, s.setValue? flag value with
  | none, none => some { s with flawed := true }
  | _, result => result

/-- The configuration file behind the subcommand counts more than the one before it. -/
def finish? (s : State) : Option Invocation :=
  if s.flawed then none else do
    let operand ← s.operand
    let config := s.innerConfig.or s.outerConfig
    match ← s.sub with
    | .parse => return .run config (.parse operand s.format)
    | .scan => return .run config (.scan operand)

end State

inductive Reading where
  | value (flag : Flag) (text : Text)
  | pending (flag : Flag)
  | stop (invocation : Invocation)
  | operand
  | onlyOperands
  | wrong

/-- An option by its letter, with the letters behind it. -/
def readShort (sub : Option Subcommand) (letter : Char) (rest : Text) : Reading :=
  match (Flag.known sub).find? (·.short == letter) with
  | some .help => .stop .help
  | some .version => .stop .version
  | some flag =>
    match rest with
    | [] => .pending flag
    | '=' :: value => .value flag value
    | value => .value flag value
  | none => .wrong

/-- An option by its name, up to the equals sign before a value. -/
def readLong (sub : Option Subcommand) (t : Text) : Reading :=
  let name := t.takeWhile (· ≠ '=')
  let attached := t.dropWhile (· ≠ '=')
  match (Flag.known sub).find? (·.long == name), attached with
  | some .help, [] => .stop .help
  | some .version, [] => .stop .version
  | some .help, _ | some .version, _ => .wrong
  | some flag, [] => .pending flag
  | some flag, _ :: value => .value flag value
  | none, _ => .wrong

def readArgument (sub : Option Subcommand) : Text → Reading
  | ['-', '-'] => .onlyOperands
  | '-' :: '-' :: t => readLong sub t
  | '-' :: letter :: rest => readShort sub letter rest
  | _ => .operand

/-- Behind `--` a subcommand is no longer looked for. -/
def readOperands (s : State) (args : List Text) : Option Invocation :=
  if s.sub.isNone then none else do
    (← args.foldlM State.setOperand? s).finish?

/-- Whether an argument could be an option and so is no value of one. -/
def looksLikeOption : Text → Bool
  | '-' :: _ :: _ => true
  | _ => false

/-- Help is about everything or about one subcommand. -/
def readHelp : List Text → Option Invocation
  | [] => some .help
  | [topic] =>
    if ["parse".toList, "scan".toList, "help".toList].contains topic then some .help else none
  | _ => none

/-- No option stands behind a wrong value as long as the subcommand has not been named. -/
def readAll (s : State) : List Text → Option Invocation
  | [] => s.finish?
  | arg :: args =>
    match readArgument s.sub arg, s.sub.isNone && s.flawed with
    | .operand, _ =>
      if s.sub.isNone ∧ arg = "help".toList then readHelp args
      else do readAll (← s.setOperand? arg) args
    | .value flag text, false => do readAll (← s.setValue? flag text) args
    | .pending flag, false =>
      match args with
      | [] => none
      | value :: args =>
        if looksLikeOption value then none else do readAll (← s.setNext? flag value) args
    | .stop invocation, false => some invocation
    | .onlyOperands, false => readOperands s args
    | _, _ => none

/-- What the arguments ask for; nothing when they cannot be understood:

    regex-hl [-c FILE] parse PATTERN [-f FORMAT]
    regex-hl [-c FILE] scan PATH -/
def parseArguments (args : List Text) : Option Invocation := readAll .start args

end PatternAnatomy.Command
