import SchemaEvolution.CommandLine.Invocation
import SchemaEvolution.Config
import SchemaEvolution.Impact.Event
import SchemaEvolution.Json.Pretty
import SchemaEvolution.Schema

namespace SchemaEvolution.CommandLine

abbrev Files := String → Option (List UInt8)

structure Stamp where
  id : String
  time : String
  deriving DecidableEq, Repr

structure Result where
  compatible : Bool
  lines : List String
  deriving DecidableEq, Repr

inductive CommandError
  | unreadable (path : String)
  | unreadableConfig (path : String)
  | invalidConfig (path : String)
  | unparsed (path : String) (cause : ParseError)
  | noFormat
  | unknownRules (name : String)
  | failed (failure : Failure)
  | event (error : Impact.EventError)

def eventCause : Protobuf.ParseError → String
  | .notFullyContained m => ": " ++ (Protobuf.ParseError.notFullyContained m).message
  | _ => ""

def eventMessage (e : Impact.EventError) : String :=
  match e with
  | .emptyPreviousData => e.message
  | .oldSchema cause | .newSchema cause => e.message ++ eventCause cause

def CommandError.message : CommandError → String
  | .unreadable path => s!"failed to read '{path}'"
  | .unreadableConfig path => s!"failed to read config file '{path}'"
  | .invalidConfig path => s!"invalid config file '{path}'"
  | .unparsed path cause => s!"failed to parse '{path}': {cause.message}"
  | .noFormat => "no schema format given; pass --format or set default_format"
  | .unknownRules name => s!"unknown rule set '{name}'; expected backward, forward or full"
  | .failed failure => failure.message
  | .event e => eventMessage e

def readFile (files : Files) (path : String) : Except CommandError (List UInt8) :=
  match files path with
  | some bytes => .ok bytes
  | none => .error (.unreadable path)

def loadSchema (files : Files) (f : Format) (path : String) : Except CommandError Schema := do
  (Schema.parse f (← readFile files path)).mapError (.unparsed path)

def loadConfig (files : Files) : Option String → Except CommandError Config
  | none => .ok .standard
  | some path =>
    match files path >>= Text.ofUtf8? with
    | none => .error (.unreadableConfig path)
    | some text =>
      match Config.parse? text with
      | some c => .ok c
      | none => .error (.invalidConfig path)

def chosenFormat (config : Config) (given : Option Format) : Except CommandError Format :=
  match given <|> config.format with
  | some f => .ok f
  | none => .error .noFormat

def runCheck (files : Files) (config : Config) (format : Option Format) (mode : Option String)
    (candidate : String) (history : List String) : Except CommandError Result := do
  let f ← chosenFormat config format
  let current ← loadSchema files f candidate
  let previous ← history.mapM (loadSchema files f)
  match (Mode.ofName (mode.getD config.mode)).check current previous with
  | .ok () => return ⟨true, ["compatible"]⟩
  | .error e =>
    if e.isIncompatible then return ⟨false, ["incompatible: " ++ e.message]⟩
    else throw (.failed e)

def diffLine (d : Diff) : String := "[" ++ d.kind.tag ++ "] " ++ d.text

def runDiff (files : Files) (config : Config) (format : Option Format) (rules current previous : String) :
    Except CommandError Result := do
  let f ← chosenFormat config format
  match RuleSet.ofName? rules with
  | none => throw (.unknownRules rules)
  | some R =>
    let current ← loadSchema files f current
    let previous ← loadSchema files f previous
    let report ← (Schema.compare R current previous).mapError .failed
    return ⟨report.isEmpty, report.diffs.map diffLine⟩

def textsJson (texts : List String) : Json := .array (texts.map .string)

def entriesJson (entries : List (String × List String)) : Json :=
  .object (entries.map fun e => (e.1, textsJson e.2))

def eventText (stamp : Stamp) (e : Impact.Event) : String :=
  Json.prettyText
    [("event_id", .string stamp.id), ("event_timestamp", .string stamp.time),
      ("namespace_name", .string e.namespaceName), ("schema_name", .string e.schemaName),
      ("version", .number (.integer e.version)), ("updated_schemas", textsJson e.changes.updated),
      ("updated_fields", entriesJson e.changes.members),
      ("impacted_schemas", entriesJson e.impacted)]

def runImpact (files : Files) (stamp : Stamp) (namespaceName schemaName : String) (version : Int)
    (old new : String) : Except CommandError Result := do
  let old ← readFile files old
  let new ← readFile files new
  let event ← (Impact.identifyChange ⟨namespaceName, schemaName, version, old, new⟩).mapError .event
  return ⟨true, [eventText stamp event]⟩

def runCommand (files : Files) (stamp : Stamp) (config : Option String) (c : Command) :
    Except CommandError Result := do
  let config ← loadConfig files config
  match c with
  | .check format mode candidate history => runCheck files config format mode candidate history
  | .diff format rules current previous => runDiff files config format rules current previous
  | .impact space name version old new => runImpact files stamp space name version old new

structure Response where
  exitCode : Nat
  output : List String
  error : Option String
  deriving DecidableEq, Repr

def Response.ofResult : Except CommandError Result → Response
  | .ok r => ⟨if r.compatible then 0 else 1, r.lines, none⟩
  | .error e => ⟨2, [], some e.message⟩

def versionText : String := "compat 0.1.0"

def usageText : String :=
  "usage: compat [-c FILE] check [-f FORMAT] [-m MODE] CANDIDATE [HISTORICAL ...]\n" ++
  "       compat [-c FILE] diff [-f FORMAT] [-r RULES] CURRENT PREVIOUS\n" ++
  "       compat [-c FILE] impact --namespace NAME --name NAME [--version N] OLD NEW"

def run (files : Files) (stamp : Stamp) (args : List String) : Response :=
  match parse? args with
  | none => ⟨2, [], none⟩
  | some .showVersion => ⟨0, [versionText], none⟩
  | some .showHelp => ⟨0, [usageText], none⟩
  | some (.run config c) => .ofResult (runCommand files stamp config c)

end SchemaEvolution.CommandLine
