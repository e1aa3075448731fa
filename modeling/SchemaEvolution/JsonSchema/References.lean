import SchemaEvolution.Json.Pointer
import SchemaEvolution.JsonSchema.Draft
import SchemaEvolution.Url.Basic

namespace SchemaEvolution.JsonSchema

def dataKeywords : List String := ["const", "default", "enum", "examples"]

def documentBase : Option Url := Url.parse? "file:///schema.json"

structure References where
  resources : List (String × Pointer)
  anchors : List ((String × String) × Pointer)
  scopes : List (Pointer × Url)
  deriving Repr

namespace References

def empty : References := ⟨[], [], []⟩

def addResource (r : References) (base : Url) (p : Pointer) : References :=
  { r with resources := (base.text, p) :: r.resources }

def addAnchor (r : References) (base : Url) (name : String) (p : Pointer) : References :=
  { r with anchors := ((base.text, name), p) :: r.anchors }

def addScope (r : References) (p : Pointer) (base : Url) : References :=
  { r with scopes := (p, base) :: r.scopes }

inductive Identity
  | anchor (name : String)
  | resource (reference : String)
  deriving DecidableEq, Repr

def identity? (d : Draft) (node : Json) : Option Identity := do
  let id ← node.string? d.idKeyword
  match id.toList with
  | '#' :: name => if d.hasFragmentIds then return .anchor (String.ofList name) else return .resource id
  | _ => return .resource id

def scope? (identity : Option Identity) (base : Url) : Option Url :=
  match identity with
  | some (.resource id) => (base.join? id).map Url.withoutFragment
  | _ => some base

def enter (d : Draft) (node : Json) (p : Pointer) (base : Url) (r : References) : References :=
  let r := match identity? d node with
    | some (.anchor name) => r.addAnchor base name p
    | some (.resource _) => r.addResource base p
    | none => r
  let r := ["$anchor", "$dynamicAnchor"].foldl (fun r keyword =>
    match node.string? keyword with
    | some name => r.addAnchor base name p
    | none => r) r
  r.addScope p base

mutual

/-- Goes through every array and object, except where a key says that data follows. Nothing is
noted below an identifier that is no valid address. -/
def collect (d : Draft) (base : Option Url) (p : Pointer) (r : References) : Json → References
  | .object ms =>
    match base >>= scope? (identity? d (.object ms)) with
    | some inner => collectMembers d (some inner) p (enter d (.object ms) p inner r) ms
    | none => collectMembers d none p r ms
  | .array xs => collectItems d base p r 0 xs
  | _ => r

def collectItems (d : Draft) (base : Option Url) (p : Pointer) (r : References) (i : Nat) :
    List Json → References
  | [] => r
  | x :: xs =>
    collectItems d base p (collect d base (p ++ [Pointer.index i]) r x) (i + 1) xs

def collectMembers (d : Draft) (base : Option Url) (p : Pointer) (r : References) :
    List (String × Json) → References
  | [] => r
  | (k, x) :: ms =>
    if k ∈ dataKeywords then collectMembers d base p r ms
    else collectMembers d base p (collect d base (p ++ [Pointer.escape k]) r x) ms

end

def index (d : Draft) (root : Json) : References :=
  let start := match documentBase with
    | some base => empty.addResource base []
    | none => empty
  collect d documentBase [] start root

/-- The pointer that a reference leads to when it is made at a given place. A fragment is an anchor
name unless it starts with a slash. -/
def resolve? (r : References) (reference : String) (place : Pointer) : Option Pointer := do
  let base ← r.scopes.lookup place
  let target ← base.join? reference
  let fragment ← Text.Percent.decodeUtf8? (String.ofList (target.fragment.getD []))
  let address := target.withoutFragment.text
  let resource ← r.resources.lookup address
  match fragment.toList with
  | [] => return resource
  | '/' :: _ => return resource ++ (← Pointer.ofText? fragment)
  | _ => r.anchors.lookup (address, fragment)

end References

end SchemaEvolution.JsonSchema
