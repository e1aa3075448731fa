import SchemaEvolution.Closure
import SchemaEvolution.JsonSchema.Keyword

namespace SchemaEvolution.JsonSchema

def Draft.address : Draft → String
  | .draft4 => "http://json-schema.org/draft-04/schema"
  | .draft6 => "http://json-schema.org/draft-06/schema"
  | .draft7 => "http://json-schema.org/draft-07/schema"
  | .draft201909 => "https://json-schema.org/draft/2019-09/schema"
  | .draft202012 => "https://json-schema.org/draft/2020-12/schema"

def Draft.all : List Draft := [.draft4, .draft6, .draft7, .draft201909, .draft202012]

def trimHashes (s : String) : String :=
  String.ofList (s.toList.reverse.dropWhile (· == '#')).reverse

def Draft.ofNode (inherited : Draft) (node : Json) : Draft :=
  match node.string? "$schema" with
  | none => inherited
  | some uri => (Draft.all.find? (·.address == trimHashes uri)).getD .draft202012

def Draft.refStandsAlone : Draft → Bool
  | .draft4 | .draft6 | .draft7 => true
  | _ => false

def Draft.resourceId? (d : Draft) (node : Json) : Option String := do
  let id ← node.string? d.idKeyword
  if d.refStandsAlone && (node.has "$ref" || id.toList.head? == some '#') then none
  else return trimHashes id

def Draft.anchors (d : Draft) (node : Json) : List String :=
  match d with
  | .draft201909 => (node.string? "$anchor").toList
  | .draft202012 => (node.string? "$anchor").toList ++ (node.string? "$dynamicAnchor").toList
  | d =>
    match (node.string? d.idKeyword).map String.toList with
    | some ('#' :: name) => [String.ofList name]
    | _ => []

structure Site where
  base : Option UriReference
  draft : Draft
  place : Pointer
  deriving DecidableEq, Repr

def standardBase : UriReference := ⟨some "json-schema".toList, some [], ['/'], none, none⟩

def documentAddress? (s : String) : Option UriReference := do
  let u ← UriReference.parse? s
  if u.scheme.isSome then return u.normalize else UriReference.resolve? standardBase s

def Site.enter (base : Option UriReference) (inherited : Draft) (place : Pointer) (node : Json) :
    Site :=
  let d := inherited.ofNode node
  match d.resourceId? node with
  | some id => ⟨base >>= (·.resolve? id), d, place⟩
  | none => ⟨base, d, place⟩

def rootBase (root : Json) : Option UriReference :=
  match (Draft.ofNode .draft202012 root).resourceId? root with
  | some id => documentAddress? id
  | none => some standardBase

def rootSite (root : Json) : Site := .enter (rootBase root) .draft202012 [] root

def Site.node? (root : Json) (s : Site) : Option Json := s.place.find? root

def Site.child? (root : Json) (s : Site) (tokens : Pointer) : Option Site := do
  let node ← (s.place ++ tokens).find? root
  return .enter s.base s.draft (s.place ++ tokens) node

def Draft.schemaPlaces (d : Draft) (which : Keyword → Bool) (node : Json) : List Pointer :=
  (d.keywords.filter which).flatMap fun k =>
    match node.get? k.name with
    | some v => (k.shape.places v).map (Pointer.escape k.name :: ·)
    | none => []

def Keyword.isSearched (d : Draft) (k : Keyword) : Bool :=
  d.refStandsAlone || k.name != "dependencies"

def Site.children (root : Json) (which : Keyword → Bool) (s : Site) : List Site :=
  match s.node? root with
  | some node => (s.draft.schemaPlaces which node).filterMap (s.child? root)
  | none => []

def allSites (root : Json) : List Site :=
  Closure.of (fun s => s.children root (Keyword.isSearched s.draft)) root.size [rootSite root]

end SchemaEvolution.JsonSchema
