namespace SchemaEvolution.CommandLine

structure Flag where
  name : String
  letter : Option Char
  accepts : String → Bool

structure Arguments where
  values : List (String × String)
  positional : List String
  deriving DecidableEq, Repr

namespace Arguments

def empty : Arguments := ⟨[], []⟩

def value? (a : Arguments) (name : String) : Option String := a.values.lookup name

def addValue? (a : Arguments) (f : Flag) (value : String) : Option Arguments :=
  if (a.value? f.name).isNone && f.accepts value then
    some { a with values := a.values ++ [(f.name, value)] }
  else none

def addPositional (a : Arguments) (text : String) : Arguments :=
  { a with positional := a.positional ++ [text] }

end Arguments

inductive Word
  | separator
  | long (name : String) (value : Option String)
  | short (letter : Char) (rest : List Char)
  | text

def wordOf (s : String) : Word :=
  match s.toList with
  | ['-', '-'] => .separator
  | '-' :: '-' :: cs =>
    match cs.dropWhile (· != '=') with
    | [] => .long (String.ofList cs) none
    | _ :: value => .long (String.ofList (cs.takeWhile (· != '='))) (some (String.ofList value))
  | '-' :: c :: cs => .short c cs
  | _ => .text

def isText (s : String) : Bool :=
  match wordOf s with
  | .text => true
  | _ => false

def attachedValue? : List Char → Option String
  | [] => none
  | '=' :: value => some (String.ofList value)
  | value => some (String.ofList value)

def flagOf? (flags : List Flag) (s : String) : Option (Flag × Option String) :=
  match wordOf s with
  | .long name value => (flags.find? (·.name == name)).map (·, value)
  | .short letter rest => (flags.find? (·.letter == some letter)).map (·, attachedValue? rest)
  | _ => none

def readArguments? (flags : List Flag) (a : Arguments) : List String → Option Arguments
  | [] => some a
  | [s] =>
    match wordOf s with
    | .separator => some a
    | .text => some (a.addPositional s)
    | _ =>
      match flagOf? flags s with
      | some (f, some value) => a.addValue? f value
      | _ => none
  | s :: t :: rest =>
    match wordOf s with
    | .separator => some ((t :: rest).foldl Arguments.addPositional a)
    | .text => readArguments? flags (a.addPositional s) (t :: rest)
    | _ =>
      match flagOf? flags s with
      | some (f, some value) => a.addValue? f value >>= fun a => readArguments? flags a (t :: rest)
      | some (f, none) =>
        if isText t then a.addValue? f t >>= fun a => readArguments? flags a rest else none
      | none => none

end SchemaEvolution.CommandLine
