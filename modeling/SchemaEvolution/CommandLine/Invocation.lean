import SchemaEvolution.CommandLine.Arguments
import SchemaEvolution.Format
import SchemaEvolution.Text.Integer

namespace SchemaEvolution.CommandLine

inductive Command
  | check (format : Option Format) (mode : Option String) (candidate : String)
      (history : List String)
  | diff (format : Option Format) (rules : String) (current previous : String)
  | impact (namespaceName schemaName : String) (version : Int) (old new : String)
  deriving DecidableEq, Repr

inductive Invocation
  | run (config : Option String) (command : Command)
  | showVersion
  | showHelp
  deriving DecidableEq, Repr

def isPath (s : String) : Bool := !s.isEmpty

def version? (s : String) : Option Int := Text.integer? 32 s

def anyText (_ : String) : Bool := true

def formatFlag : Flag := ⟨"format", some 'f', fun s => (Format.ofName? s).isSome⟩

def modeFlag : Flag := ⟨"mode", some 'm', anyText⟩

def rulesFlag : Flag := ⟨"rules", some 'r', anyText⟩

def namespaceFlag : Flag := ⟨"namespace", none, anyText⟩

def nameFlag : Flag := ⟨"name", none, anyText⟩

def versionFlag : Flag := ⟨"version", none, fun s => (version? s).isSome⟩

def configFlag : Flag := ⟨"config", some 'c', isPath⟩

def Arguments.format? (a : Arguments) : Option Format := a.value? formatFlag.name >>= Format.ofName?

def usualRules : String := "backward"

def usualVersion : Int := 1

def checkOf? (a : Arguments) : Option Command :=
  match a.positional with
  | candidate :: history => some (.check a.format? (a.value? modeFlag.name) candidate history)
  | [] => none

def diffOf? (a : Arguments) : Option Command :=
  match a.positional with
  | [current, previous] =>
    some (.diff a.format? ((a.value? rulesFlag.name).getD usualRules) current previous)
  | _ => none

def impactOf? (a : Arguments) : Option Command := do
  let space ← a.value? namespaceFlag.name
  let name ← a.value? nameFlag.name
  let version := (a.value? versionFlag.name >>= version?).getD usualVersion
  match a.positional with
  | [old, new] => return .impact space name version old new
  | _ => none

def commandOf? (name : String) : Option (List Flag × (Arguments → Option Command)) :=
  match name with
  | "check" => some ([formatFlag, modeFlag], checkOf?)
  | "diff" => some ([formatFlag, rulesFlag], diffOf?)
  | "impact" => some ([namespaceFlag, nameFlag, versionFlag], impactOf?)
  | _ => none

def asksForHelp (args : List String) : Bool :=
  (args.takeWhile (· ≠ "--")).any fun s => s = "-h" ∨ s = "--help"

def readCommand? (name : String) (args : List String) : Option Command := do
  let (flags, make) ← commandOf? name
  let a ← readArguments? flags .empty args
  if a.positional.all isPath then make a else none

def readInvocation? (config : Option String) : List String → Option Invocation
  | [] => none
  | s :: args =>
    match wordOf s with
    | .separator => none
    | .text =>
      if s = "help" then some .showHelp
      else if (commandOf? s).isSome && asksForHelp args then some .showHelp
      else (readCommand? s args).map (.run config)
    | .long "version" none | .short 'V' _ => some .showVersion
    | .long "help" none | .short 'h' _ => some .showHelp
    | _ =>
      if config.isSome then none
      else
        match flagOf? [configFlag] s, args with
        | some (f, some path), args =>
          if f.accepts path then readInvocation? (some path) args else none
        | some (f, none), path :: args =>
          if isText path && f.accepts path then readInvocation? (some path) args else none
        | _, _ => none

def parse? (args : List String) : Option Invocation := readInvocation? none args

end SchemaEvolution.CommandLine
