import Junction.Settings

/-!
# Arguments

The arguments of the program name a command and its expression, with options before the command or
after it. `Invocation.ofArguments` reads them.

An option is written `--name`, with its value after `=` or as the next argument, or as a dash and a
letter; several letters may share a dash, and the value of the last one may follow at once. After
`--` every argument stands for itself. Arguments are read from left to right, and the first fault
counts. The value of an option that is an argument of its own is looked at only when the next option
or expression is read, or at the end; so a fault in how a later argument is spelled comes first.
-/

namespace Junction

open Text

/-- What the program is to do. -/
inductive Command where
  | tree
  | check
  | solve
  | fsolve
  | filter
  deriving DecidableEq

/-- An option. -/
inductive Switch where
  | config
  | verbose
  | format
  | conditions
  | fact
  | help
  | version
  deriving DecidableEq

/-- Why the arguments are refused. Asking for help or for the version ends the reading as well. -/
inductive UsageError where
  | helpAsked
  | versionAsked
  | nothingGiven
  | missingCommand
  | missingExpression
  | unknownCommand
  | unknownArgument
  | unexpectedValue
  | badValue
  | badFact (argument : String)
  | repeated
  deriving DecidableEq

/-- What a refused fact is told. -/
def factComplaint (argument : String) : String :=
  "invalid fact '" ++ argument ++ "', expected FIELD=VALUE"

namespace Command

/-- The command of a name. -/
def ofName? : String → Option Command
  | "tree" => some tree
  | "check" => some check
  | "solve" => some solve
  | "fsolve" => some fsolve
  | "filter" => some filter
  | _ => none

/-- The command works on conditions and facts. -/
def takesFacts : Command → Bool
  | tree | check => false
  | solve | fsolve | filter => true

end Command

namespace Switch

/-- Every option. -/
def all : List Switch := [config, verbose, format, conditions, fact, help, version]

/-- The name of an option. -/
def name : Switch → String
  | config => "config"
  | verbose => "verbose"
  | format => "format"
  | conditions => "conditions"
  | fact => "fact"
  | help => "help"
  | version => "version"

/-- The letter of an option, if it has one. -/
def letter? : Switch → Option Char
  | config => some 'c'
  | verbose => some 'v'
  | fact => some 'f'
  | help => some 'h'
  | version => some 'V'
  | format | conditions => none

/-- The option has a value. -/
def takesValue : Switch → Bool
  | config | format | fact => true
  | verbose | conditions | help | version => false

/-- The option may be given: before the command, where it is none, or after it. -/
def isAllowed (command : Option Command) : Switch → Bool
  | config | verbose | format | help => true
  | version => command.isNone
  | conditions => command.any (!·.takesFacts)
  | fact => command.any (·.takesFacts)

/-- The option of a name. -/
def ofName? (command : Option Command) (s : String) : Option Switch :=
  all.find? fun o => o.isAllowed command && o.name == s

/-- The option of a letter. -/
def ofLetter? (command : Option Command) (c : Char) : Option Switch :=
  all.find? fun o => o.isAllowed command && o.letter? == some c

end Switch

/-- **A fact from an argument**: the field is what stands before the first `=`, white space around
it aside, and may not be empty; the value is all that stands after. -/
def factOf? (argument : String) : Option (String × String) :=
  match argument.toList.dropWhile (· ≠ '=') with
  | [] => none
  | _ :: value =>
    match trim (argument.toList.takeWhile (· ≠ '=')) with
    | [] => none
    | field => some (String.ofList field, String.ofList value)

/-- What has been given so far, before the command or after it. -/
structure Given where
  config : Option String := none
  verbose : Bool := false
  format : Option OutputFormat := none
  conditions : Bool := false
  facts : List (String × String) := []
  expression : Option String := none
  /-- The option read last, if its value is an argument of its own: the value has not come, or has
  not been looked at. -/
  pending : Option (Switch × Option String) := none

namespace Given

/-- The next argument is the value of an option. -/
def awaitsValue (g : Given) : Bool := g.pending.any (·.2.isNone)

/-- An option of the program as a whole has been given. -/
def hasAny (g : Given) : Bool := g.config.isSome || g.verbose || g.format.isSome

/-- The value of an option. Only facts may be given more than once. -/
def store (g : Given) (o : Switch) (value : String) : Except UsageError Given :=
  match o with
  | .config =>
    if g.config.isSome then .error .repeated
    else if value = "" then .error .badValue
    else .ok { g with config := some value }
  | .format =>
    if g.format.isSome then .error .repeated
    else
      match OutputFormat.ofName? value with
      | none => .error .badValue
      | some format => .ok { g with format := some format }
  | .fact =>
    match factOf? value with
    | none => .error (.badFact value)
    | some fact => .ok { g with facts := g.facts ++ [fact] }
  | _ => .error .unexpectedValue

/-- Looks at the value of the option read last. -/
def settle (g : Given) : Except UsageError Given :=
  match g.pending with
  | none => .ok g
  | some (_, none) => .error .badValue
  | some (o, some value) => { g with pending := none }.store o value

/-- An option without a value. -/
def turnOn (g : Given) (o : Switch) : Except UsageError Given :=
  match o with
  | .help => .error .helpAsked
  | .version => .error .versionAsked
  | .verbose => if g.verbose then .error .repeated else .ok { g with verbose := true }
  | .conditions => if g.conditions then .error .repeated else .ok { g with conditions := true }
  | _ => .error .badValue

/-- An option, with the value that is attached to it. -/
def option (g : Given) (o : Switch) (attached : Option String) : Except UsageError Given :=
  if o.takesValue then do
    let g ← g.settle
    match attached with
    | some value => g.store o value
    | none => return { g with pending := some (o, none) }
  else
    match attached with
    | some _ => .error .unexpectedValue
    | none => do (← g.settle).turnOn o

/-- The letters after one dash. -/
def letters (g : Given) (command : Option Command) : List Char → Except UsageError Given
  | [] => .ok g
  | c :: cs =>
    match Switch.ofLetter? command c with
    | none => .error .unknownArgument
    | some o =>
      if o.takesValue then
        match cs with
        | [] => g.option o none
        | '=' :: value => g.option o (some (String.ofList value))
        | value => g.option o (some (String.ofList value))
      else do (← g.option o none).letters command cs

/-- A name after two dashes, and the value after `=`. -/
def named (g : Given) (command : Option Command) (cs : List Char) : Except UsageError Given :=
  match Switch.ofName? command (String.ofList (cs.takeWhile (· ≠ '='))) with
  | none => .error .unknownArgument
  | some o =>
    match cs.dropWhile (· ≠ '=') with
    | [] => g.option o none
    | _ :: value => g.option o (some (String.ofList value))

/-- An argument that is no option. Before the command it names none; after it, it is the
expression. -/
def plain (g : Given) (command : Option Command) (escaped : Bool) (argument : String) :
    Except UsageError Given :=
  match command, g.expression with
  | none, _ =>
    if escaped && ((Command.ofName? argument).isSome || argument == "help") then
      .error .unknownArgument
    else .error .unknownCommand
  | some _, some _ => .error .unknownArgument
  | some _, none => do return { ← g.settle with expression := some argument }

end Given

/-- Help on what the arguments name: the program, or one of its commands. -/
def helpOn : List String → UsageError
  | [] => .helpAsked
  | [name] =>
    if (Command.ofName? name).isSome || name == "help" then .helpAsked else .unknownCommand
  | _ => .unknownCommand

/-- **Reads arguments**, before the command, where it is none, up to a command, or else all of
them. `escaped` tells that each of them stands for itself. -/
def readArguments (command : Option Command) (escaped : Bool) (g : Given) :
    List String → Except UsageError (Given × Option (Command × List String))
  | [] => do return (← g.settle, none)
  | argument :: later =>
    if escaped then do readArguments command true (← g.plain command true argument) later
    else if command.isNone && !g.awaitsValue && argument == "help" then .error (helpOn later)
    else
      -- a name that is awaited as a value is no command
      match if command.isNone && !g.awaitsValue then Command.ofName? argument else none with
      | some found => .ok (g, some (found, later))
      | none =>
        match argument.toList with
        | ['-', '-'] => readArguments command true g later
        | '-' :: '-' :: cs => do readArguments command false (← g.named command cs) later
        | '-' :: c :: cs => do readArguments command false (← g.letters command (c :: cs)) later
        | _ =>
          match g.pending with
          | some (o, none) =>
            readArguments command false { g with pending := some (o, some argument) } later
          | _ => do readArguments command false (← g.plain command false argument) later

/-- **What the program is called for.** -/
structure Invocation where
  command : Command
  expression : String
  /-- The leaves of the expression are conditions. -/
  conditions : Bool
  facts : List (String × String)
  /-- The name of the settings document. -/
  config : Option String
  format : Option OutputFormat

/-- **The invocation that the arguments write.** What is given after the command counts before what
is given in front of it. -/
def Invocation.ofArguments (arguments : List String) : Except UsageError Invocation := do
  let (front, found) ← readArguments none false {} arguments
  match found with
  | none => if front.hasAny then .error .missingCommand else .error .nothingGiven
  | some (command, later) =>
    let (given, _) ← readArguments (some command) false {} later
    match given.expression with
    | none => .error .missingExpression
    | some expression =>
      -- the last value in front of the command is looked at only now
      let front ← front.settle
      return {
        command, expression
        conditions := given.conditions || command.takesFacts
        facts := given.facts
        config := given.config.or front.config
        format := given.format.or front.format }

end Junction
