import SwiftDecls.Run

/-!
# The command line

A command line is options, the name of a command, and the command's options. An option is
written by its long name or its letter; letters can be joined behind one dash. A value follows
its option behind an equals sign, behind the letter, or as the next argument, which then does
not start with a dash. No option may be given twice at one level, and no path may be empty.
Nothing but options may follow a command, and `--` ends them.
-/

set_option autoImplicit false

namespace SwiftDecls

open Text

/-- What an option does. -/
inductive OptionKind where
  | flag
  /-- It takes a value, which may be empty or not. -/
  | value (mayBeEmpty : Bool)
  | help
  | version
deriving DecidableEq, Repr

/-- An option. -/
structure OptionRule where
  name : String
  letter : Option Char
  kind : OptionKind
deriving DecidableEq, Repr

/-- Why reading a command line stops. -/
inductive Stop where
  /-- It is no command line. -/
  | misuse
  | help
  | version
deriving DecidableEq, Repr

/-- The options that have been given, with their values. -/
abbrev Given : Type := List (String × String)

namespace Given

/-- An option has been given. -/
def has (g : Given) (name : String) : Bool := (g.lookup name).isSome

/-- The value of an option as a path. -/
def path? (g : Given) (name : String) : Option Path := (g.lookup name).map Path.mk

/-- Adds an option with its value. -/
def add (g : Given) (r : OptionRule) (value : String) : Except Stop Given :=
  if g.has r.name ∨ (value.isEmpty ∧ r.kind = .value false) then .error .misuse
  else .ok ((r.name, value) :: g)

end Given

/-- What an argument is. -/
inductive Argument where
  | word
  /-- `--name` or `--name=value`. -/
  | long (name : String) (value : Option String)
  /-- Letters behind one dash. -/
  | letters (cs : List Char)
deriving DecidableEq, Repr

/-- What an argument is. A single dash is a word. -/
def Argument.of (arg : String) : Argument :=
  match arg.toList with
  | '-' :: '-' :: body =>
    match cutAt? '=' body with
    | some (name, value) => .long (String.ofList name) (some (String.ofList value))
    | none => .long (String.ofList body) none
  | '-' :: c :: cs => .letters (c :: cs)
  | _ => .word

/-- The effect of arguments so far: the options, and one that still lacks its value. -/
abbrev Effect : Type := Given × Option OptionRule

/-- An option without a value behind it. -/
def applyBare (g : Given) (r : OptionRule) : Except Stop Effect :=
  match r.kind with
  | .help => .error .help
  | .version => .error .version
  | .flag => (g.add r "").map (·, none)
  | .value _ => .ok (g, some r)

/-- A long option. -/
def applyLong (rules : List OptionRule) (g : Given) (name : String) (value : Option String) :
    Except Stop Effect :=
  match rules.find? (·.name == name), value with
  | none, _ => .error .misuse
  | some r, none => applyBare g r
  | some r, some v =>
    match r.kind with
    | .value _ => (g.add r v).map (·, none)
    | _ => .error .misuse

/-- Letters behind one dash. What follows the letter of an option with a value is the value. -/
def applyLetters (rules : List OptionRule) (g : Given) : List Char → Except Stop Effect
  | [] => .ok (g, none)
  | c :: cs =>
    match rules.find? (·.letter == some c) with
    | none => .error .misuse
    | some r =>
      match r.kind, cs with
      | .value _, '=' :: value => (g.add r (String.ofList value)).map (·, none)
      | .value _, v :: value => (g.add r (String.ofList (v :: value))).map (·, none)
      | _, cs => do
        let (g, pending) ← applyBare g r
        match pending with
        | some r => return (g, some r)
        | none => applyLetters rules g cs

/-- Reads options up to the first argument that is none, and returns the arguments from there
on. Nothing may follow `--`. -/
def readOptions (rules : List OptionRule) (g : Given) :
    List String → Except Stop (Given × List String)
  | [] => .ok (g, [])
  | arg :: rest => do
    if arg = "--" then
      if rest.isEmpty then return (g, []) else throw .misuse
    else
      let effect ← match Argument.of arg with
        | .word => return (g, arg :: rest)
        | .long name value => applyLong rules g name value
        | .letters cs => applyLetters rules g cs
      match effect, rest with
      | (g, none), rest => readOptions rules g rest
      | (g, some r), value :: rest =>
        if Argument.of value = .word then readOptions rules (← g.add r value) rest
        else throw .misuse
      | (_, some _), [] => throw .misuse

/-! ## The program's options and commands -/

/-- Whether to say more. -/
def verboseOption : OptionRule := ⟨"verbose", some 'v', .flag⟩

/-- The request for help. -/
def helpOption : OptionRule := ⟨"help", some 'h', .help⟩

/-- The options in front of a command. -/
def programOptions : List OptionRule :=
  [verboseOption, helpOption, ⟨"version", some 'V', .version⟩]

/-- The options of both commands. -/
def commonOptions : List OptionRule :=
  [⟨"api", some 'a', .value false⟩, ⟨"config", some 'c', .value false⟩, verboseOption, helpOption]

/-- The options of the command that makes declarations. -/
def generateOptions : List OptionRule := commonOptions ++ [
  ⟨"output", some 'o', .value false⟩, ⟨"docs", some 'd', .value false⟩,
  ⟨"per-type", none, .flag⟩, ⟨"build-configuration", some 'b', .value true⟩]

/-- A command with its options. -/
inductive Command where
  | generate (config : Option Path) (overrides : Overrides)
  | check (config api : Option Path)
deriving DecidableEq, Repr

/-- A command line. -/
structure Invocation where
  verbose : Bool
  command : Command
deriving DecidableEq, Repr

/-- The options of a command, behind which nothing may come. -/
def readAllOptions (rules : List OptionRule) (args : List String) : Except Stop Given := do
  match ← readOptions rules [] args with
  | (g, []) => return g
  | _ => throw .misuse

/-- The names of the commands. -/
def commandNames : List String := ["generate", "check", "help"]

/-- Reads a command line. -/
def Invocation.read (args : List String) : Except Stop Invocation := do
  let (program, rest) ← readOptions programOptions [] args
  match rest with
  | "generate" :: args =>
    let g ← readAllOptions generateOptions args
    return {
      verbose := program.has "verbose" || g.has "verbose"
      command := .generate (g.path? "config") {
        api := g.path? "api"
        output := g.path? "output"
        docRoot := g.path? "docs"
        buildConfiguration := g.lookup "build-configuration"
        perType := g.has "per-type" } }
  | "check" :: args =>
    let g ← readAllOptions commonOptions args
    return {
      verbose := program.has "verbose" || g.has "verbose"
      command := .check (g.path? "config") (g.path? "api") }
  | ["help"] => throw .help
  | ["help", name] => throw (if name ∈ commandNames then .help else .misuse)
  | _ => throw .misuse

/-! ## Running -/

/-- How the program ends. -/
inductive Exit where
  | success
  | failure
  | misuse
deriving DecidableEq, Repr

/-- The status of an end. -/
def Exit.status : Exit → Nat
  | success => 0
  | failure => 1
  | misuse => 2

/-- What the program says about its version. -/
def versionText : String := "gdswift 0.3.0"

/-- What the program says about its use. -/
def usageText : List String := [
  "Swift declaration generator for the engine API",
  "",
  "Usage: gdswift [-v] generate [-a FILE] [-o DIR] [-d DIR] [-c FILE] [--per-type] [-b NAME]",
  "       gdswift [-v] check [-a FILE] [-c FILE]"]

section

variable {m : Type → Type} [Monad m] [Host m]

/-- Runs a command. -/
def Command.run : Command → Run m Unit
  | generate config overrides => generateCommand config overrides
  | check config api => checkCommand config api

/-- Runs the program. -/
def runProgram (args : List String) : m Exit := do
  match Invocation.read args with
  | .error .misuse => return .misuse
  | .error .version =>
    Host.say (.line versionText)
    return .success
  | .error .help =>
    usageText.forM fun text => Host.say (.line text)
    return .success
  | .ok invocation =>
    match ← invocation.command.run.run with
    | .ok () => return .success
    | .error failure =>
      Host.say (.failure failure.message)
      return .failure

end

end SwiftDecls
