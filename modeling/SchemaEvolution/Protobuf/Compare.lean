import SchemaEvolution.Protobuf.Registry
import SchemaEvolution.Protobuf.Reserved
import SchemaEvolution.Report

namespace SchemaEvolution.Protobuf

def reservedDiffs (location owner : String) (current previous : Reserved) : List Diff :=
  (previous.intervals.filter (!current.coversInterval ·)).map (fun i =>
      ⟨.reservedRangeNotInclusive, location, s!"{owner} no longer reserves {i.text}"⟩) ++
    (previous.names.filter (!current.hasName ·)).map fun n =>
      ⟨.reservedNameRemoved, location, s!"{owner} no longer reserves name '{n}'"⟩

def jsonNameDiffs (location : String) (current previous : Field) : List Diff :=
  if current.jsonName = previous.jsonName then []
  else [⟨.jsonNameChanged, location,
    s!"field '{previous.fullName}' JSON name changed from '{previous.jsonName}' to '{current.jsonName}'"⟩]

def labelDiffs (location : String) (current previous : Field) : List Diff :=
  if current.cardinality = previous.cardinality then []
  else [⟨.fieldLabelChanged, location,
    s!"field '{previous.fullName}' label changed from {previous.cardinality.name} to {current.cardinality.name}"⟩]

def kindDiffs (location : String) (current previous : Field) : List Diff :=
  if current.kind.name ≠ previous.kind.name then
    [⟨.fieldKindChanged, location,
      s!"field '{previous.fullName}' kind changed from {previous.kind.name} to {current.kind.name}"⟩]
  else
    match previous.kind.reference?, current.kind.reference? with
    | some old, some new =>
      if old = new then []
      else [⟨.fieldTypeChanged, location,
        s!"field '{previous.fullName}' type changed from '{old}' to '{new}'"⟩]
    | _, _ => []

def fieldDiffs (location : String) (current previous : Field) : List Diff :=
  jsonNameDiffs location current previous ++ labelDiffs location current previous ++
    kindDiffs location current previous

def deletedFieldDiffs (location : String) (reserved : Reserved) (f : Field) : List Diff :=
  ⟨.fieldDeleted, location, s!"field '{f.fullName}' ({f.number}) was deleted"⟩ ::
    ((if reserved.covers f.number then []
      else [⟨.fieldDeleteWithoutReservedNumber, location,
        s!"field '{f.fullName}' was deleted without reserving number {f.number}"⟩]) ++
    (if reserved.hasName f.name then []
      else [⟨.fieldDeleteWithoutReservedName, location,
        s!"field '{f.fullName}' was deleted without reserving name '{f.name}'"⟩]))

def Message.field? (m : Message) (number : Int) : Option Field :=
  m.fields.find? (·.number == number)

def messageDiffs (location : String) (current previous : Message) : List Diff :=
  let reserved := Reserved.ofMessage current
  reservedDiffs location s!"message '{previous.fullName}'" reserved (.ofMessage previous) ++
    previous.fields.flatMap fun old =>
      match current.field? old.number with
      | some new => fieldDiffs location new old
      | none => deletedFieldDiffs location reserved old

def checkMessages (current previous : Registry) : List Diff :=
  previous.files.flatMap fun f => f.allMessages.flatMap fun old =>
    match current.message? old.fullName with
    | some new => messageDiffs f.name new old
    | none => [⟨.messageDeleted, f.name, s!"message '{old.fullName}' was deleted"⟩]

def EnumType.number? (e : EnumType) (value : String) : Option Int := e.values.lookup value

def deletedValueDiffs (location enum : String) (reserved : Reserved) (value : String)
    (number : Int) : List Diff :=
  ⟨.enumValueDeleted, location, s!"enum '{enum}' value '{value}' ({number}) was deleted"⟩ ::
    ((if reserved.covers number then []
      else [⟨.enumValueDeleteWithoutReservedNumber, location,
        s!"enum '{enum}' value '{value}' was deleted without reserving number {number}"⟩]) ++
    (if reserved.hasName value then []
      else [⟨.enumValueDeleteWithoutReservedName, location,
        s!"enum '{enum}' value '{value}' was deleted without reserving its name"⟩]))

def valueDiffs (location enum : String) (current : EnumType) (reserved : Reserved)
    (value : String) (old : Int) : List Diff :=
  match current.number? value with
  | none => deletedValueDiffs location enum reserved value old
  | some new =>
    if new = old then []
    else [⟨.enumValueNumberChanged, location,
      s!"enum '{enum}' value '{value}' changed number from {old} to {new}"⟩]

def enumDiffs (location : String) (current previous : EnumType) : List Diff :=
  let reserved := Reserved.ofEnum current
  reservedDiffs location s!"enum '{previous.fullName}'" reserved (.ofEnum previous) ++
    previous.values.flatMap fun v => valueDiffs location previous.fullName current reserved v.1 v.2

def checkEnums (current previous : Registry) : List Diff :=
  previous.files.flatMap fun f => f.allEnums.flatMap fun old =>
    match current.enum? old.fullName with
    | some new => enumDiffs f.name new old
    | none => [⟨.enumDeleted, f.name, s!"enum '{old.fullName}' was deleted"⟩]

def File.language (f : File) : String := if f.syntaxName = "" then "proto2" else f.syntaxName

def checkLanguage (current previous : Registry) : List Diff :=
  previous.files.flatMap fun f => f.allMessages.flatMap fun old =>
    match current.fileOf? old.fullName with
    | none => []
    | some g =>
      if g.language = f.language then []
      else [⟨.syntaxChanged, f.name,
        s!"syntax of message '{old.fullName}' changed from {f.language} to {g.language}"⟩]

def compareDiffs (current previous : Registry) : List Diff :=
  checkMessages current previous ++ checkEnums current previous ++ checkLanguage current previous

def compare (R : RuleSet) (current previous : Registry) : Report :=
  .of R (compareDiffs current previous)

/-- The walks in the order in which their findings are recorded. -/
def walks : List (Registry → Registry → List Diff) := [checkMessages, checkEnums, checkLanguage]

/-- The same comparison as a pass: each walk hands its findings to one collector. -/
def collect (current previous : Registry) (c : Collector) : Collector :=
  walks.foldl (fun c walk => c.extend (walk current previous)) c

end SchemaEvolution.Protobuf
