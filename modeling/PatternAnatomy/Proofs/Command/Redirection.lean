import PatternAnatomy.Command.Run
import PatternAnatomy.Proofs.Color.Palette
import PatternAnatomy.Proofs.Decoration.Painting
import PatternAnatomy.Proofs.Settings.Reading

namespace PatternAnatomy.Command

variable {fs : Files} {home arg p path : Text} {screen : Screen} {s : State}
  {sub : Option Subcommand} {args : List Text} {f : Failure}

theorem readArgument_of_head? (h : arg.head? ≠ some '-') : readArgument sub arg = .operand := by
  cases arg with
  | nil => rfl
  | cons c cs =>
    have hc : c ≠ '-' := fun hc => h (congrArg some hc)
    unfold readArgument
    split
    next h => exact absurd (List.cons.inj h).1 hc
    next h => exact absurd (List.cons.inj h).1 hc
    next h => exact absurd (List.cons.inj h).1 hc
    next => rfl

theorem readAll_operand (hsub : s.sub.isNone = false) (harg : arg.head? ≠ some '-')
    (args : List Text) :
    readAll s (arg :: args) = (s.setOperand? arg).bind fun s => readAll s args := by
  rw [readAll, readArgument_of_head? harg]
  simp [hsub]

/-- The arguments that name a format, if one is named. -/
def formatArguments (format : Option OutputFormat) : List Text :=
  format.toList.flatMap fun f => ["-f".toList, f.name]

theorem parseArguments_parse (hp : p.head? ≠ some '-') (format : Option OutputFormat) :
    parseArguments ("parse".toList :: p :: formatArguments format) =
      some (.run none (.parse p format)) := by
  have hsub : parseArguments ("parse".toList :: p :: formatArguments format) =
      readAll ⟨some .parse, none, none, none, none, false⟩ (p :: formatArguments format) := rfl
  rw [hsub, readAll_operand rfl hp]
  cases format with
  | none => rfl
  | some f => cases f <;> rfl

theorem parseArguments_scan (hne : path ≠ []) (hpath : path.head? ≠ some '-') :
    parseArguments ["scan".toList, path] = some (.run none (.scan path)) := by
  have hsub : parseArguments ["scan".toList, path] =
      readAll ⟨some .scan, none, none, none, none, false⟩ [path] := rfl
  have hoperand : State.setOperand? ⟨some .scan, none, none, none, none, false⟩ path =
      some ⟨some .scan, none, none, none, some path, false⟩ := by
    simp [State.setOperand?, hne]
  rw [hsub, readAll_operand rfl hpath, hoperand]
  rfl

/-- What the command reports; nothing where its arguments ask for no run. -/
def answer? (fs : Files) (home : Text) (screen : Screen) (args : List Text) : Option Report :=
  match parseArguments args with
  | some (.run config request) => some (run fs home screen config request)
  | _ => none

theorem answer?_of_run {config : Option Text} {request : Request}
    (h : parseArguments args = some (.run config request)) :
    answer? fs home screen args = some (run fs home screen config request) := by
  rw [answer?, h]

theorem build_defaults (fs : Files) : (layers none).build fs = .ok .defaults := by
  rw [← Settings.defaults.ofTree_toTree]
  simp only [layers, Settings.Layers.build, Settings.Layers.empty, List.foldlM_nil, pure,
    Except.pure, bind, Except.bind, Except.mapError]

theorem exists_palette_defaults :
    ∃ palette, Palette.ofTexts Settings.defaults.colors = .ok palette := by
  apply Palette.exists_ofTexts_iff.2
  intro c
  cases c <;> decide +kernel

def runPlain (fs : Files) (colored : Bool) : Request → Report
  | .parse p format => runParse .defaults .empty colored p format
  | .scan path => runScan fs .empty colored path

theorem run_eq_runPlain (h : screen.isTerminal = false) (request : Request) :
    run fs home screen none request = runPlain fs screen.colored request := by
  obtain ⟨palette, hpalette⟩ := exists_palette_defaults
  rw [run, build_defaults]
  simp only [hpalette, h, Bool.false_eq_true, if_false]
  cases request <;> rfl

theorem runParse_ansi {nodes : List Node} (h : parse p = .ok nodes) (settings : Settings)
    (colored : Bool) :
    runParse settings .empty colored p (some .ansi) = .success (p ++ ['\n']) := by
  -- Not `rw`: the equation of `runParse` takes long to be made.
  delta runParse
  simp only [h, Option.getD_some, shown, paint_empty]

theorem runParse_of_error (h : parse p = .error f) (settings : Settings) (palette : Palette)
    (colored : Bool) (format : Option OutputFormat) :
    runParse settings palette colored p format = .failure (failureText f) := by
  delta runParse
  rw [h]

theorem prefix_failureText (f : Failure) :
    "Error: ".toList ++ f.message ++ " at offset ".toList ++ Text.ofNat f.position <+:
      failureText f := by
  have hrender : "Error: ".toList ++ f.message ++ " at offset ".toList ++ Text.ofNat f.position =
      "Error: ".toList ++ f.render := by
    rw [Failure.render, List.append_assoc, List.append_assoc, List.append_assoc]
  rw [hrender]
  exact List.prefix_append _ _

/-- A found pattern behind its line and column, which are counted from one. -/
def plainLine (found : Nat × Call.Found) : Text :=
  Text.ofNat (found.1 + 1) ++ ':' :: Text.ofNat (found.2.column + 1) ++ ": ".toList ++
    found.2.pattern ++ ['\n']

theorem runScan_of_ok {source : Text} (h : fs path = .ok source) (colored : Bool) :
    runScan fs .empty colored path =
      .success ((Call.patternsOfLines source).flatMap plainLine) := by
  have hline : ∀ line f, scanLine .empty colored line f = plainLine (line, f) := by
    intro line f
    rw [scanLine, paint_empty, plainLine]
  simp only [runScan, h, hline]

/-- Without a terminal, and with nothing set but the defaults: an accepted pattern is written as it
is, of one that is not accepted only the failure is written, and the patterns of a source are
written as they are whether they are accepted or not. -/
theorem redirected_output (hscreen : screen.isTerminal = false) :
    (∀ p nodes, p.head? ≠ some '-' → parse p = .ok nodes →
      answer? fs home screen ["parse".toList, p, "-f".toList, "ansi".toList] =
        some ⟨0, p ++ ['\n'], []⟩) ∧
    (∀ p f format, p.head? ≠ some '-' → parse p = .error f →
      ∃ err, answer? fs home screen ("parse".toList :: p :: formatArguments format) =
          some ⟨1, [], err⟩ ∧
        "Error: ".toList ++ f.message ++ " at offset ".toList ++ Text.ofNat f.position <+: err) ∧
    ∀ path source, path ≠ [] → path.head? ≠ some '-' → fs path = .ok source →
      answer? fs home screen ["scan".toList, path] =
        some ⟨0, (Call.patternsOfLines source).flatMap plainLine, []⟩ := by
  refine ⟨?_, ?_, ?_⟩
  · intro p nodes hp hparse
    have hargs : ["parse".toList, p, "-f".toList, "ansi".toList] =
        "parse".toList :: p :: formatArguments (some .ansi) := rfl
    rw [hargs, answer?_of_run (parseArguments_parse hp _), run_eq_runPlain hscreen, runPlain,
      runParse_ansi hparse, Report.success]
  · intro p f format hp hparse
    refine ⟨failureText f, ?_, prefix_failureText f⟩
    rw [answer?_of_run (parseArguments_parse hp format), run_eq_runPlain hscreen,
      runPlain, runParse_of_error hparse, Report.failure]
  · intro path source hne hpath hread
    rw [answer?_of_run (parseArguments_scan hne hpath), run_eq_runPlain hscreen, runPlain,
      runScan_of_ok hread, Report.success]

/-- A source with a call on its second line, whose pattern is not accepted. -/
def oneSource : Files := fun _ => .ok "\n new Regex(\"é(\")".toList

theorem redirected_output_oneSource :
    answer? oneSource [] ⟨false, true⟩
        ["parse".toList, "[é]".toList, "-f".toList, "ansi".toList] =
      some ⟨0, "[é]\n".toList, []⟩ ∧
    (∃ err, answer? oneSource [] ⟨false, true⟩
        ["parse".toList, "é(".toList, "-f".toList, "json".toList] = some ⟨1, [], err⟩ ∧
      "Error: unexpected end of input while parsing group at offset 2".toList <+: err) ∧
    answer? oneSource [] ⟨false, true⟩ ["scan".toList, "a.cs".toList] =
      some ⟨0, "2:13: é(\n".toList, []⟩ := by
  obtain ⟨haccepted, hfailed, hscan⟩ := @redirected_output oneSource [] ⟨false, true⟩ rfl
  have hparse : parse "[é]".toList = .ok [.charList [.single 'é' ⟨1, 1⟩] false ⟨0, 3⟩] := by
    decide +kernel
  have hparse' : parse "é(".toList =
      .error ⟨"unexpected end of input while parsing group".toList, 2, ["')'", "'?'",
        "any character", "character list", "escape", "group", "verbatim"].map String.toList⟩ := by
    decide +kernel
  refine ⟨haccepted _ _ (by decide) hparse, hfailed _ _ (some .json) (by decide) hparse', ?_⟩
  have hout : (Call.patternsOfLines "\n new Regex(\"é(\")".toList).flatMap plainLine =
      "2:13: é(\n".toList := by
    decide +kernel
  rw [hscan _ _ (by decide) (by decide) rfl, hout]

end PatternAnatomy.Command
