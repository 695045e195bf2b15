/-
TokenSheets/CommandLine/Arguments.lean

Reading the command line.

The arguments are read from left to right on two levels, before and after the
name of a command.  An option is given at most once on each level, `verbose`
apart, and one that is given on both takes the later value.  The first thing
that does not fit ends the reading, and so does asking for help or the version,
whatever follows.  An environment variable stands in for an option that a level
does not give; it has to be as well-formed as the option itself.
-/
import TokenSheets.Layout
import TokenSheets.Json.Value

namespace TokenSheets.CommandLine

/-! ### What can be asked for -/

inductive Command where
  | build
  | generate
  | config
  | init (force : Bool)
deriving DecidableEq, Repr

/-- A command and the options that hold for all commands. -/
structure Invocation where
  base : Option Path
  config : Option Path
  /-- The compiler program. -/
  program : String
  command : Command
deriving DecidableEq, Repr

inductive Request where
  | invoke (i : Invocation)
  | version
  | help
deriving DecidableEq, Repr

/-- Why the arguments make no request. -/
inductive UsageError where
  | unknownArgument (argument : String)
  | unknownCommand (name : String)
  | missingValue (option : String)
  | unexpectedValue (option : String)
  | repeated (option : String)
deriving DecidableEq, Repr

def UsageError.message : UsageError → String
  | .unknownArgument a => "unexpected argument '" ++ a ++ "'"
  | .unknownCommand a => "unknown command '" ++ a ++ "'"
  | .missingValue o => "--" ++ o ++ " needs a value"
  | .unexpectedValue o => "--" ++ o ++ " takes no value"
  | .repeated o => "--" ++ o ++ " is given more than once"

/-! ### Options and commands -/

/-- The names of commands. -/
inductive CommandName where
  | build
  | generate
  | config
  | init
deriving DecidableEq, Repr

def CommandName.ofText? : String → Option CommandName
  | "build" => some .build
  | "generate" => some .generate
  | "config" => some .config
  | "init" => some .init
  | _ => none

inductive OptionName where
  | base
  | config
  | sassBin
  | verbose
  | force
  | version
  | help
deriving DecidableEq, Repr

namespace OptionName

def all : List OptionName := [.base, .config, .sassBin, .verbose, .force, .version, .help]

def long : OptionName → String
  | .base => "base"
  | .config => "config"
  | .sassBin => "sass-bin"
  | .verbose => "verbose"
  | .force => "force"
  | .version => "version"
  | .help => "help"

def short? : OptionName → Option Char
  | .config => some 'c'
  | .verbose => some 'v'
  | .version => some 'V'
  | .help => some 'h'
  | _ => none

def takesValue : OptionName → Bool
  | .base => true
  | .config => true
  | .sassBin => true
  | _ => false

/-- Whether a level has the option; the first level is that of no command. -/
def allowedIn (level : Option CommandName) : OptionName → Bool
  | .force => level = some .init
  | .version => level = none
  | _ => true

/-- The option of a level with a long name. -/
def ofLong? (level : Option CommandName) (name : List Char) : Option OptionName :=
  all.find? fun o => o.allowedIn level && o.long.toList == name

/-- The option of a level with a letter. -/
def ofShort? (level : Option CommandName) (letter : Char) : Option OptionName :=
  all.find? fun o => o.allowedIn level && o.short? == some letter

/-- The environment variable that stands in for an option. -/
def environmentName? : OptionName → Option String
  | .base => some Layout.baseVariable
  | .sassBin => some "LAZIT_SASS_BIN"
  | _ => none

end OptionName

/-! ### One level -/

/-- What is given on one level. -/
structure Given where
  values : List (OptionName × String)
  force : Bool
deriving DecidableEq, Repr

def Given.nothing : Given := ⟨[], false⟩

def Given.value? (g : Given) (o : OptionName) : Option String :=
  (g.values.find? fun e => e.1 = o).map (·.2)

/-- Why reading ends early. -/
inductive Stop where
  | usage (e : UsageError)
  | version
  | help
deriving DecidableEq, Repr

/-- Notes the value of an option. -/
def Given.set (g : Given) (o : OptionName) (value : String) : Except Stop Given :=
  if value.isEmpty then .error (.usage (.missingValue o.long))
  else if (g.value? o).isSome then .error (.usage (.repeated o.long))
  else .ok { g with values := g.values ++ [(o, value)] }

/-- Notes an option that takes no value. -/
def Given.flag (g : Given) : OptionName → Except Stop Given
  | .version => .error .version
  | .help => .error .help
  | .force => if g.force then .error (.usage (.repeated "force")) else .ok { g with force := true }
  | _ => .ok g

/-- What an argument leaves: the level so far, and an option whose value is in the next one. -/
abbrev Step := Except Stop (Given × Option OptionName)

/-- An argument that begins with two dashes. -/
def readLong (level : Option CommandName) (g : Given) (s : List Char) : Step :=
  let name := s.takeWhile (· ≠ '=')
  let attached := s.drop name.length
  match OptionName.ofLong? level name with
  | none => .error (.usage (.unknownArgument (String.ofList ('-' :: '-' :: s))))
  | some o =>
    match o.takesValue, attached with
    | true, [] => .ok (g, some o)
    | true, _ :: value => (g.set o (String.ofList value)).map fun g => (g, none)
    | false, [] => (g.flag o).map fun g => (g, none)
    | false, _ :: _ => .error (.usage (.unexpectedValue o.long))

/-- The letters of an argument that begins with one dash.  A letter whose option takes a value has
the rest of the argument for it. -/
def readShort (level : Option CommandName) (g : Given) : List Char → Step
  | [] => .ok (g, none)
  | c :: cs =>
    match OptionName.ofShort? level c with
    | none => .error (.usage (.unknownArgument (String.ofList ['-', c])))
    | some o =>
      if o.takesValue then
        match cs with
        | [] => .ok (g, some o)
        | '=' :: value => (g.set o (String.ofList value)).map fun g => (g, none)
        | value => (g.set o (String.ofList value)).map fun g => (g, none)
      else
        match g.flag o with
        | .ok g => readShort level g cs
        | .error stop => .error stop

/-- Whether an argument is an option and not a value; one dash alone is a value. -/
def isOption (argument : String) : Bool :=
  match argument.toList with
  | '-' :: _ :: _ => true
  | _ => false

/-- Reads the arguments of a level up to the first word, which is left with what follows it. -/
def readLevel (level : Option CommandName) (g : Given) :
    List String → Except Stop (Given × List String)
  | [] => .ok (g, [])
  | a :: rest =>
    if a = "--" then
      match rest with
      | [] => .ok (g, [])
      | b :: _ => .error (.usage (.unknownArgument b))
    else if !isOption a then .ok (g, a :: rest)
    else
      let step :=
        match a.toList with
        | '-' :: '-' :: s => readLong level g s
        | s => readShort level g (s.drop 1)
      match step, rest with
      | .error stop, _ => .error stop
      | .ok (g, none), rest => readLevel level g rest
      | .ok (_, some o), [] => .error (.usage (.missingValue o.long))
      | .ok (g, some o), value :: rest =>
        if isOption value then .error (.usage (.missingValue o.long))
        else
          match g.set o value with
          | .error stop => .error stop
          | .ok g => readLevel level g rest

/-! ### Both levels -/

/-- The environment, by name. -/
abbrev Environment := List (String × String)

/-- The value of a variable. -/
def Environment.value? (env : Environment) (name : String) : Option String :=
  (env.find? fun e => e.1 = name).map (·.2)

/-- An option's value from the environment, if its variable is set. -/
def environmentValue (env : Environment) (o : OptionName) : Option String :=
  o.environmentName?.bind env.value?

/-- Refuses an empty variable where a level relies on it. -/
def checkEnvironment (env : Environment) (g : Given) : Except Stop Unit :=
  match OptionName.all.find? fun o =>
      (g.value? o).isNone && environmentValue env o == some "" with
  | some o => .error (.usage (.missingValue o.long))
  | none => .ok ()

/-- The value that holds: the later level before the earlier one, and the environment last. -/
def effectiveValue (env : Environment) (outer inner : Given) (o : OptionName) : Option String :=
  ((inner.value? o).or (outer.value? o)).or (environmentValue env o)

/-- The program that is started if no other one is named. -/
def defaultProgram : String := "sass"

/-- The invocation of two levels. -/
def invocation (env : Environment) (outer inner : Given) (command : Command) : Invocation :=
  let value := effectiveValue env outer inner
  { base := (value .base).map Path.mk
    config := (value .config).map Path.mk
    program := (value .sassBin).getD defaultProgram
    command }

def CommandName.command (name : CommandName) (force : Bool) : Command :=
  match name with
  | .build => .build
  | .generate => .generate
  | .config => .config
  | .init => .init force

/-- The words after `help`: nothing, or the name of a command. -/
def readHelp : List String → Stop
  | [] => .help
  | [name] =>
    if name = "help" || (CommandName.ofText? name).isSome then .help
    else .usage (.unknownCommand name)
  | name :: next :: _ =>
    if name = "help" || (CommandName.ofText? name).isSome then .usage (.unknownCommand next)
    else .usage (.unknownCommand name)

/-- The invocation that arguments and environment ask for. -/
def readInvocation (env : Environment) (args : List String) : Except Stop Invocation := do
  let (outer, rest) ← readLevel none .nothing args
  match rest with
  | [] =>
    checkEnvironment env outer
    return invocation env outer .nothing .build
  | "help" :: words => throw (readHelp words)
  | word :: rest =>
    match CommandName.ofText? word with
    | none => throw (.usage (.unknownCommand word))
    | some name =>
      let (inner, surplus) ← readLevel (some name) .nothing rest
      match surplus with
      | a :: _ => throw (.usage (.unknownArgument a))
      | [] =>
        checkEnvironment env inner
        checkEnvironment env outer
        return invocation env outer inner (name.command inner.force)

/-- What arguments and environment ask for. -/
def read (env : Environment) (args : List String) : Except UsageError Request :=
  match readInvocation env args with
  | .ok i => .ok (.invoke i)
  | .error .version => .ok .version
  | .error .help => .ok .help
  | .error (.usage e) => .error e

end TokenSheets.CommandLine
