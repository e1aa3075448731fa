import SchemaEvolution.Json.Parser
import SchemaEvolution.JsonSchema.Explored
import SchemaEvolution.JsonSchema.Linkage

namespace SchemaEvolution.JsonSchema

def namesDraft (root : Json) : Bool :=
  match root.get? "$schema" with
  | none => true
  | some v => isText (fun uri => (documentAddress? uri).isSome) v

def Draft.conforming (d : Draft) (root : Json) : Bool := conforms d .schema root

def isInEffect (node : Json) (k : Keyword) : Bool :=
  k.applied &&
    match k.name with
    | "then" | "else" => node.has "if"
    | "additionalItems" => (node.array? "items").isSome
    | _ => true

def Draft.referencesOf (d : Draft) (node : Json) : List String :=
  (node.string? "$ref").toList ++
    match d with
    | .draft201909 => if node.has "$recursiveRef" then ["#"] else []
    | .draft202012 => (node.string? "$dynamicRef").toList
    | _ => []

def Draft.isReferenceOnly (d : Draft) (node : Json) : Bool := d.refStandsAlone && node.has "$ref"

def Draft.holds (d : Draft) (node : Json) : Bool :=
  ((node.get? "$ref").all isString) &&
    (d.isReferenceOnly node ||
      ((d.keywords.filter (isInEffect node)).all fun k =>
          ((node.get? k.name).all fun v => k.shape.holds d v)) &&
        ((node.get? "pattern").all isPattern) &&
        (((node.object? "patternProperties").getD []).all fun m => Pattern.isValid m.1))

def nextSites (l : Linkage) (s : Site) : List Site :=
  match s.node? l.root, s.base with
  | some node, some base =>
    ((s.draft.referencesOf node).filterMap fun r =>
      match l.follow? base r with
      | some (.site t) => some t
      | _ => none) ++
      if s.draft.isReferenceOnly node then []
      else s.children l.root (isInEffect node)
  | _, _ => []

def isUsable (l : Linkage) (s : Site) : Bool :=
  match s.node? l.root, s.base with
  | some (.bool _), some _ => true
  | some (.object ms), some base =>
    s.draft.holds (.object ms) &&
      (s.draft.referencesOf (.object ms)).all fun r => (l.follow? base r).isSome
  | _, _ => false

/-- A place is reached with no more bases than there are schemas, and the latest draft or one
that some schema names. -/
def siteBound (root : Json) : Nat := root.size * (root.size + 1) * (Draft.all.length + 1)

def reachedSites (l : Linkage) : List Site :=
  Closure.of (nextSites l) (siteBound l.root) [rootSite l.root]

def isSchema (root : Json) : Bool :=
  namesDraft root && (Draft.ofNode .draft202012 root).conforming root &&
    match Linkage.of? root with
    | none => false
    | some l => (reachedSites l).all (isUsable l)

inductive ParseError
  | notJson
  | notSchema
  deriving DecidableEq, Repr

def ParseError.message : ParseError → String
  | .notJson => "invalid JSON"
  | .notSchema => "invalid JSON schema"

namespace Explored

def ofText (root : Json) : Except ParseError Explored :=
  if isSchema root then .ok (.ofRoot root) else .error .notSchema

def parse (bytes : List UInt8) : Except ParseError Explored :=
  match Json.ofUtf8? bytes with
  | none => .error .notJson
  | some root => ofText root

end Explored

end SchemaEvolution.JsonSchema
