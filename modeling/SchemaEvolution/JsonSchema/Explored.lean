import SchemaEvolution.Closure
import SchemaEvolution.Json.Printer
import SchemaEvolution.JsonSchema.References

/-!
Explored documents: the places of all schemas that the root reaches through schema keywords and
references. A place is a pointer; cycles of references end because no place is visited twice.
-/

namespace SchemaEvolution.JsonSchema

def compositionKeywords : List String := ["allOf", "oneOf", "anyOf"]

def locationText (p : Pointer) : String := "#" ++ p.text

def arrayPlaces (keyword : String) (node : Json) : List Pointer :=
  (List.range ((node.array? keyword).getD []).length).map fun i => [keyword, Pointer.index i]

def propertyPlaces (node : Json) : List Pointer :=
  ((node.object? "properties").getD []).map fun m => ["properties", Pointer.escape m.1]

def itemPlaces (node : Json) : List Pointer :=
  match node.get? "items" with
  | some (.array _) => arrayPlaces "items" node
  | some _ => [["items"]]
  | none => []

def childPlaces (node : Json) : List Pointer :=
  compositionKeywords.flatMap (arrayPlaces · node) ++ propertyPlaces node ++ itemPlaces node ++
    arrayPlaces "prefixItems" node

def targetPlaces (refs : References) (node : Json) (p : Pointer) : List Pointer :=
  ((node.string? "$ref" >>= fun reference => refs.resolve? reference p).map ([·])).getD []

def isObjectAt (root : Json) (p : Pointer) : Bool :=
  ((p.find? root).map Json.isObject).getD false

def nextPlaces (root : Json) (refs : References) (p : Pointer) : List Pointer :=
  match p.find? root with
  | none => []
  | some node =>
    (targetPlaces refs node p ++ (childPlaces node).map (p ++ ·)).filter (isObjectAt root)

def placeBound (root : Json) : Nat := root.size * (root.size + 1)

def places (root : Json) (refs : References) : List Pointer :=
  Closure.of (nextPlaces root refs) (placeBound root) ([[]].filter (isObjectAt root))

structure Explored where
  root : Json
  draft : Draft
  places : List Pointer

namespace Explored

def ofRoot (root : Json) : Explored where
  root := root
  draft := Draft.ofDocument root
  places := (JsonSchema.places root (References.index (Draft.ofDocument root) root)).mergeSort
    fun p q => decide (¬ locationText q < locationText p)

def size (e : Explored) : Nat := e.places.length

def node? (e : Explored) (location : String) : Option Json := do
  let p ← e.places.find? (locationText · == location)
  p.find? e.root

def nodes (e : Explored) : List (String × Json) :=
  e.places.filterMap fun p => (p.find? e.root).map fun v => (locationText p, v)

def canonical (e : Explored) : List UInt8 := Text.toUtf8 e.root.text

end Explored

end SchemaEvolution.JsonSchema
