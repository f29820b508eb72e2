import PatternAnatomy.Call
import PatternAnatomy.Command.Arguments
import PatternAnatomy.Decoration.Listing
import PatternAnatomy.Decoration.Painting
import PatternAnatomy.Failure
import PatternAnatomy.Node.Decorations
import PatternAnatomy.Node.Outline

namespace PatternAnatomy.Command

structure Report where
  code : Nat
  out : Text
  err : Text
deriving DecidableEq

/-- Where the output goes: to a terminal or elsewhere, and with colors allowed or not. -/
structure Screen where
  isTerminal : Bool
  colored : Bool

namespace Report

def success (out : Text) : Report := ⟨0, out, []⟩

def failure (err : Text) : Report := ⟨1, [], err⟩

end Report

def versionText : Text := "regex-hl 0.1.0\n".toList

def shown (format : OutputFormat) (settings : Settings) (palette : Palette) (colored : Bool)
    (pattern : Text) (nodes : List Node) : Text :=
  match format with
  | .ansi => paint pattern (decorations nodes) palette colored ++ ['\n']
  | .tokens => listing pattern (decorations nodes) settings.showOffsets
  | .json => json (decorations nodes) ++ ['\n']
  | .tree => outline nodes

def failureText (f : Failure) : Text :=
  "Error: ".toList ++ f.render ++ '\n' ::
    if f.expected.isEmpty then []
    else "Expected one of: ".toList ++ Text.joined ", ".toList f.expected ++ ['\n']

def runParse (settings : Settings) (palette : Palette) (colored : Bool) (pattern : Text)
    (format : Option OutputFormat) : Report :=
  match parse pattern with
  | .ok nodes =>
    .success (shown (format.getD settings.format) settings palette colored pattern nodes)
  | .error f => .failure (failureText f)

/-- The line for one found pattern. What cannot be parsed stays plain. -/
def scanLine (palette : Palette) (colored : Bool) (line : Nat) (f : Call.Found) : Text :=
  Text.ofNat (line + 1) ++ ':' :: Text.ofNat (f.column + 1) ++ ": ".toList ++
    paint f.pattern (decorations ((parse? f.pattern).getD [])) palette colored ++ ['\n']

def runScan (fs : Files) (palette : Palette) (colored : Bool) (path : Text) : Report :=
  match fs path with
  | .ok source =>
    .success ((Call.patternsOfLines source).flatMap fun (i, f) => scanLine palette colored i f)
  | .error fault => .failure ("Error reading file: ".toList ++ fault.message ++ ['\n'])

def layers (config : Option Text) : Settings.Layers :=
  match config with
  | some name => Settings.Layers.empty.withFile name
  | none => .empty

/-- Runs in the directory `home`, from which the names of settings are made full. Output that goes
to no terminal is left plain. Settings with an index that has no place in its
list end the program at once. -/
def run (fs : Files) (home : Text) (screen : Screen) (config : Option Text) (request : Request) :
    Report :=
  match (layers config).build (fs.under home) with
  | .error (.badIndex fault) => ⟨101, [], fault.message ++ ['\n']⟩
  | .error e => .failure ("Error loading configuration: ".toList ++ e.message ++ ['\n'])
  | .ok settings =>
    match Palette.ofTexts settings.colors with
    | .error e => .failure ("Error in palette: ".toList ++ e.message ++ ['\n'])
    | .ok palette =>
      let palette := if screen.isTerminal then palette else Palette.empty
      match request with
      | .parse pattern format => runParse settings palette screen.colored pattern format
      | .scan path => runScan fs palette screen.colored path

end PatternAnatomy.Command
