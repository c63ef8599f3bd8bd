import Junction.CommandLine.Commands
import Junction.Json.Reader

/-!
# The program

Reads the arguments, the settings document that they name and the environment, and prints what the
command answers. Help and the version go to the standard output, faults of the arguments to the
standard error with exit code 2, and failures of the command with exit code 1.
-/

namespace Junction

/-- How the program is called. -/
def usageText (program : String) : String :=
  "Usage: " ++ program ++ " [OPTIONS] <COMMAND> <EXPRESSION>\n\n"
    ++ "Commands:\n"
    ++ "  tree    Print the parse tree of an expression\n"
    ++ "  check   Check that an expression parses\n"
    ++ "  solve   Evaluate conditions against facts; unknown fields are false\n"
    ++ "  fsolve  Evaluate conditions against facts, leaving out unknown fields\n"
    ++ "  filter  Drop conditions on unknown fields and print what remains\n"
    ++ "  help    Print this message\n\n"
    ++ "Options:\n"
    ++ "  -c, --config <CONFIG>    Settings file\n"
    ++ "  -v, --verbose            Enable verbose output\n"
    ++ "      --format <FORMAT>    Output format for printed trees: json, yaml or text\n"
    ++ "      --conditions         Split operands into conditions (tree, check)\n"
    ++ "  -f, --fact <FIELD=VALUE> Fact overriding settings (solve, fsolve, filter; repeatable)\n"
    ++ "  -h, --help               Print help\n"
    ++ "  -V, --version            Print version"

/-- A fault of the arguments in words. -/
def UsageError.text : UsageError → String
  | .helpAsked | .versionAsked | .nothingGiven => ""
  | .missingCommand => "a command is required"
  | .missingExpression => "an expression is required"
  | .unknownCommand => "unrecognized command"
  | .unknownArgument => "unexpected argument"
  | .unexpectedValue => "unexpected value for an option"
  | .badValue => "invalid or missing value for an option"
  | .badFact argument => factComplaint argument
  | .repeated => "an option cannot be used multiple times"

/-- What lies behind a failure, in words. -/
def causeText : Failure → String
  | .settings .malformed => "the settings cannot be read"
  | .settings (.keywords fault) => fault.message
  | .expression _ _ error => error.message

/-- The variables of the environment, from where the system lists them. -/
def readEnvironment : IO (List (String × String)) := do
  try
    let listed ← IO.FS.readFile "/proc/self/environ"
    return (listed.splitOn "\x00").filterMap fun entry =>
      match entry.toList.dropWhile (· ≠ '=') with
      | [] => none
      | _ :: value => some (String.ofList (entry.toList.takeWhile (· ≠ '=')), String.ofList value)
  catch _ => return []

/-- The settings document of a name; none if it cannot be read. -/
def readDocument : Option String → IO (Option Json)
  | none => return some (.object [])
  | some path => do
    try
      match Json.read? (← IO.FS.readFile path) with
      | some (.object fields) => return some (.object fields)
      | _ => return none
    catch _ => return none

end Junction

open Junction in
/-- **The program.** -/
def main (arguments : List String) : IO UInt32 := do
  let program := (← IO.appPath).fileStem.getD "junction"
  match Invocation.ofArguments arguments with
  | .error .helpAsked =>
    IO.println (usageText program)
    return 0
  | .error .versionAsked =>
    IO.println (program ++ " 0.1.0")
    return 0
  | .error .nothingGiven =>
    IO.eprintln (usageText program)
    return 2
  | .error e =>
    IO.eprintln ("error: " ++ e.text)
    return 2
  | .ok invocation =>
    match invocation.run program (← readDocument invocation.config) (← readEnvironment) with
    | .ok answer =>
      IO.println answer
      return 0
    | .error failure =>
      IO.eprintln ("Error: " ++ failure.message ++ "\n\nCaused by:\n    " ++ causeText failure)
      return 1
