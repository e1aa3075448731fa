import SchemaEvolution.Format
import SchemaEvolution.Text.Blank
import SchemaEvolution.Yaml.Parser

namespace SchemaEvolution

structure Config where
  mode : String
  format : Option Format
  logLevel : String
  deriving DecidableEq, Repr

namespace Config

def standard : Config := ⟨"BACKWARD", none, "warn"⟩

def text? : Yaml → Option String
  | .scalar text _ => some text
  | _ => none

def nulls : List String := ["", "~", "null", "Null", "NULL"]

def format? : Yaml → Option (Option Format)
  | .scalar text plain =>
    if plain ∧ text ∈ nulls then some none else (Format.ofName? text).map some
  | _ => none

def set? (c : Config) (key : String) (value : Yaml) : Option Config :=
  match key with
  | "default_mode" => (text? value).map fun mode => { c with mode }
  | "default_format" => (format? value).map fun format => { c with format }
  | "log_level" => (text? value).map fun logLevel => { c with logLevel }
  | _ => none

def ofEntries? (entries : List (Yaml × Yaml)) : Option Config := do
  let keys ← entries.mapM fun e => text? e.1
  if keys.Nodup then
    (keys.zip (entries.map (·.2))).foldlM (fun c e => c.set? e.1 e.2) standard
  else none

def ofYaml? : Option Yaml → Option Config
  | none => some standard
  | some (.mapping entries) => ofEntries? entries
  | some (.scalar "" true) => some standard
  | some _ => none

def parse? (text : String) : Option Config :=
  if (Text.trimBlank text).isEmpty then some standard
  else Yaml.parse? text >>= ofYaml?

end Config

end SchemaEvolution
