import SchemaEvolution.JsonSchema.Site
import SchemaEvolution.Text.Percent

/-!
Where the references of a document lead. Whatever is not in the document itself counts as a schema
that accepts everything, so a reference to it is fine as long as it asks for the whole of it.
-/

namespace SchemaEvolution.JsonSchema

def knownAddresses : List String :=
  ["https://json-schema.org/draft/2020-12/", "https://json-schema.org/draft/2019-09/",
    "http://json-schema.org/draft-07/", "http://json-schema.org/draft-06/",
    "http://json-schema.org/draft-04/"]

def vocabularyAddresses : List String :=
  ["core", "applicator", "validation", "meta-data", "content"].flatMap (fun v =>
      ["https://json-schema.org/draft/2019-09/meta/" ++ v,
        "https://json-schema.org/draft/2020-12/meta/" ++ v]) ++
    ["https://json-schema.org/draft/2019-09/meta/format",
      "https://json-schema.org/draft/2020-12/meta/unevaluated",
      "https://json-schema.org/draft/2020-12/meta/format-annotation",
      "https://json-schema.org/draft/2020-12/meta/format-assertion"]

def standardDefinitions : Draft → List String
  | .draft4 => ["positiveInteger", "positiveIntegerDefault0", "schemaArray", "simpleTypes",
      "stringArray"]
  | .draft6 | .draft7 => ["nonNegativeInteger", "nonNegativeIntegerDefault0", "schemaArray",
      "simpleTypes", "stringArray"]
  | _ => []

def Draft.describes (d : Draft) (fragment : String) : Bool :=
  fragment.isEmpty ||
    (d.refStandsAlone &&
      match Pointer.ofText? fragment with
      | some ["definitions", name] => name ∈ standardDefinitions d
      | some ["properties", name] => (d.keyword? (Pointer.unescape name)).isSome
      | _ => false)

structure Linkage where
  root : Json
  sites : List Site
  external : List UriReference

def outwardReferences (node : Json) : List String :=
  (["$ref", "$schema"].filterMap node.string?).filter fun r =>
    r.toList.head? != some '#' &&
      !knownAddresses.any fun start => start.toList.isPrefixOf r.toList

def isUrn (u : UriReference) : Bool := u.scheme == some "urn".toList

def Site.external? (root : Json) (s : Site) : Option (List UriReference) := do
  let base ← s.base
  if isUrn base then return []
  else
    let node ← s.node? root
    (outwardReferences node).mapM fun r =>
      (base.withoutFragment.resolve? r).map (·.withoutFragment)

def Linkage.of? (root : Json) : Option Linkage := do
  let sites := allSites root
  let external ← sites.mapM (Site.external? root)
  return ⟨root, sites, external.flatten⟩

namespace Linkage

def resource? (l : Linkage) (address : UriReference) : Option Site :=
  let named (s : Site) : Bool :=
    s.base == some address &&
      match s.node? l.root with
      | some node => (s.draft.resourceId? node).isSome
      | none => false
  match l.sites.reverse.find? named with
  | some s => some s
  | none =>
    if rootBase l.root == some address then
      l.sites.head?.map fun s => { s with base := some address }
    else none

def anchor? (l : Linkage) (address : UriReference) (name : String) : Option Site :=
  l.sites.reverse.find? fun s =>
    s.base == some address &&
      match s.node? l.root with
      | some node => (s.draft.anchors node).contains name
      | none => false

def isSchemaPath (d : Draft) : (tokens : List String) → Bool
  | [] => true
  | [k] =>
    match d.shapeOf (Pointer.unescape k) with
    | .schema | .schemaOrFlag | .schemaOrSchemas => true
    | _ => false
  | k :: t :: rest =>
    match d.shapeOf (Pointer.unescape k) with
    | .schema | .schemaOrFlag => isSchemaPath d (t :: rest)
    | .schemaOrSchemas =>
      if (Pointer.index? t).isSome then isSchemaPath d rest else isSchemaPath d (t :: rest)
    | .schemas | .schemasByName _ | .dependencies => isSchemaPath d rest
    | _ => false

def position? (token : String) : Option Nat :=
  let ds := match token.toList with
    | '+' :: ds => ds
    | ds => ds
  if !ds.isEmpty && ds.all Char.isDigit && Nat.ofDigitChars 10 ds 0 < Nat.pow 2 64 then
    some (Nat.ofDigitChars 10 ds 0)
  else none

def step? (v : Json) (token : String) : Option (String × Json) :=
  match v with
  | .array xs => do
    let i ← position? token
    let x ← xs[i]?
    return (Pointer.index i, x)
  | v => (Pointer.step v token).map (token, ·)

/-- Walks from a site. An identifier on the way counts where a schema may stand; `taken` are the
tokens since the last one. -/
def walk? (d : Draft) (s : Site) (node : Json) (taken : List String) : List String → Option Site
  | [] => some ⟨s.base, d.ofNode node, s.place⟩
  | token :: rest => do
    let (t, next) ← step? node token
    let place := s.place ++ [t]
    let inner := d.ofNode next
    if isSchemaPath d (taken ++ [t]) then
      let entered := Site.enter s.base d place next
      walk? d entered next (if (inner.resourceId? next).isSome then [] else taken ++ [t]) rest
    else walk? d ⟨s.base, s.draft, place⟩ next (taken ++ [t]) rest

inductive Target
  | site (s : Site)
  | elsewhere
  deriving Repr

def locate? (l : Linkage) (address : UriReference) (start : Site) (fragment : String) :
    Option Target := do
  match fragment.toList with
  | [] => return .site start
  | '/' :: tokens =>
    let decoded ← Text.Percent.decodeUtf8? (String.ofList tokens)
    let node ← start.node? l.root
    let s ← walk? start.draft start node []
      ((Text.splitAt '/' decoded.toList).map String.ofList)
    return .site s
  | _ =>
    let s ← l.anchor? address fragment
    return .site s

def outside? (l : Linkage) (address : UriReference) (fragment : String) : Option Target :=
  let text := address.text
  let found :=
    match Draft.all.find? (·.address == text) with
    | some d => d.describes fragment
    | none =>
      (vocabularyAddresses.contains text || l.external.contains address) && fragment.isEmpty
  if found then some .elsewhere else none

def follow? (l : Linkage) (base : UriReference) (reference : String) : Option Target := do
  let _ ← base.resolve? reference
  let (address, fragment) ← match Text.cut? '#' reference.toList with
    | some ([], f) => some (base, String.ofList f)
    | some (a, f) => (base.resolve? (String.ofList a)).map (·, String.ofList f)
    | none => (base.resolve? reference).map (·, "")
  match l.resource? address with
  | some start => l.locate? address start fragment
  | none => l.outside? address fragment

end Linkage

end SchemaEvolution.JsonSchema
