import SchemaEvolution.Json.Pointer
import SchemaEvolution.JsonSchema.Draft
import SchemaEvolution.Pattern
import SchemaEvolution.UriReference

/-!
What each draft lets a keyword hold. A document conforms to its draft when every keyword in it, down
through all places that hold schemas, holds a value of its shape.
-/

namespace SchemaEvolution.JsonSchema

inductive Shape
  | schema
  | schemaOrFlag
  | schemas
  | schemaOrSchemas
  | schemaOrNames
  | schemasByName (accepts : String → Bool)
  | dependencies
  | value (accepts : Json → Bool)

structure Keyword where
  name : String
  shape : Shape
  applied : Bool

def isCount (d : Draft) : Json → Bool
  | .number (.integer n) => 0 ≤ n
  | .number (.float x) => d ≠ .draft4 && x.isIntegral && (!x.negative || x.magnitude.isZero)
  | _ => false

def isNumber : Json → Bool
  | .number _ => true
  | _ => false

def isPositive : Json → Bool
  | .number (.integer n) => 0 < n
  | .number (.float x) => !x.negative && !x.magnitude.isZero
  | _ => false

def isText (accepts : String → Bool) (v : Json) : Bool := v.asString?.any accepts

def isString : Json → Bool := isText fun _ => true

def isFlag (v : Json) : Bool := v.asBool?.isSome

def isArray (v : Json) : Bool := v.asArray?.isSome

def isPattern : Json → Bool := isText Pattern.isValid

def isAddress (s : String) : Bool := (UriReference.parse? s).any (·.scheme.isSome)

def isReference (s : String) : Bool := (UriReference.parse? s).isSome

def hasNoFragment (s : String) : Bool :=
  match Text.cut? '#' s.toList with
  | none | some (_, []) => true
  | some _ => false

def isAnchorName (first rest : Char → Bool) (s : String) : Bool :=
  match s.toList with
  | [] => false
  | c :: cs => first c && cs.all rest

def isAnchor201909 : String → Bool :=
  isAnchorName Char.isAlpha fun c => c.isAlphanum || "-.:_".toList.contains c

def isAnchor202012 : String → Bool :=
  isAnchorName (fun c => c.isAlpha || c == '_') fun c => c.isAlphanum || "-._".toList.contains c

def isTextList (accepts : String → Bool) (least : Nat) (v : Json) : Bool :=
  match v with
  | .array xs =>
    xs.all (isText accepts) && least ≤ xs.length && decide (xs.filterMap Json.asString?).Nodup
  | _ => false

def isNameList (d : Draft) : Json → Bool :=
  isTextList (fun _ => true) (if d = .draft4 then 1 else 0)

def typeNames : List String :=
  ["array", "boolean", "integer", "null", "number", "object", "string"]

def isTypeName (s : String) : Bool := typeNames.contains s

def isTypes (v : Json) : Bool := isText isTypeName v || isTextList isTypeName 1 v

def isEach (accepts : Json → Bool) (v : Json) : Bool :=
  v.asObject?.any (·.all fun m => accepts m.2)

def anyName (_ : String) : Bool := true

def describing (accepts : Json → Bool) (names : List String) : List Keyword :=
  names.map (⟨·, .value accepts, false⟩)

def limiting (accepts : Json → Bool) (names : List String) : List Keyword :=
  names.map (⟨·, .value accepts, true⟩)

def applying (shape : Shape) (names : List String) : List Keyword := names.map (⟨·, shape, true⟩)

def declaring (names : List String) : List Keyword :=
  names.map (⟨·, .schemasByName anyName, false⟩)

def commonKeywords (d : Draft) : List Keyword :=
  describing isString ["title", "description"] ++
    limiting (isCount d)
      ["maxLength", "minLength", "maxItems", "minItems", "maxProperties", "minProperties"] ++
    limiting isPositive ["multipleOf"] ++ limiting isNumber ["maximum", "minimum"] ++
    limiting isFlag ["uniqueItems"] ++ limiting isArray ["enum"] ++ limiting isTypes ["type"] ++
    limiting (isNameList d) ["required"] ++ limiting isString ["format"] ++
    applying .schemas ["allOf", "anyOf", "oneOf"] ++ applying .schema ["not"] ++
    applying (.schemasByName anyName) ["properties"] ++
    applying .dependencies ["dependencies"] ++ declaring ["definitions"]

def keywordsFrom6 : List Keyword :=
  describing isArray ["examples"] ++
    limiting isNumber ["exclusiveMaximum", "exclusiveMinimum"] ++
    applying .schema ["contains", "propertyNames", "additionalProperties"]

def keywordsFrom7 : List Keyword :=
  describing isString ["$comment"] ++ describing isFlag ["readOnly"] ++
    applying .schema ["if", "then", "else"]

def keywordsFrom201909 (d : Draft) (anchors : String → Bool) : List Keyword :=
  describing (isText hasNoFragment) ["$id"] ++
    describing isString ["$schema", "contentMediaType", "contentEncoding"] ++
    describing (isText anchors) ["$anchor"] ++ describing (isEach isFlag) ["$vocabulary"] ++
    describing isFlag ["deprecated", "writeOnly"] ++ declaring ["$defs"] ++
    limiting isString ["$ref", "pattern"] ++
    limiting (isCount d) ["maxContains", "minContains"] ++
    limiting (isEach (isNameList d)) ["dependentRequired"] ++
    applying (.schemasByName anyName) ["dependentSchemas", "patternProperties"] ++
    applying .schema ["unevaluatedItems", "unevaluatedProperties"] ++
    [⟨"contentSchema", .schema, false⟩]

namespace Draft

def keywords (d : Draft) : List Keyword :=
  commonKeywords d ++
    match d with
    | .draft4 =>
      describing isString ["id", "$schema"] ++
        limiting isPattern ["pattern"] ++
        describing isFlag ["exclusiveMaximum", "exclusiveMinimum"] ++
        applying .schemaOrSchemas ["items"] ++
        applying .schemaOrFlag ["additionalItems", "additionalProperties"] ++
        applying (.schemasByName anyName) ["patternProperties"]
    | .draft6 =>
      keywordsFrom6 ++ describing (isText isAddress) ["$schema"] ++
        describing (isText isReference) ["$id"] ++ limiting (isText isReference) ["$ref"] ++
        limiting isPattern ["pattern"] ++ applying .schemaOrSchemas ["items"] ++
        applying .schema ["additionalItems"] ++
        applying (.schemasByName anyName) ["patternProperties"]
    | .draft7 =>
      keywordsFrom6 ++ keywordsFrom7 ++ describing (isText isAddress) ["$schema"] ++
        describing (isText isReference) ["$id"] ++ limiting (isText isReference) ["$ref"] ++
        limiting isPattern ["pattern"] ++ applying .schemaOrSchemas ["items"] ++
        applying .schema ["additionalItems"] ++
        applying (.schemasByName Pattern.isValid) ["patternProperties"] ++
        limiting isString ["contentMediaType", "contentEncoding"]
    | .draft201909 =>
      keywordsFrom6 ++ keywordsFrom7 ++ keywordsFrom201909 d isAnchor201909 ++
        limiting isString ["$recursiveRef"] ++ describing isFlag ["$recursiveAnchor"] ++
        applying .schemaOrSchemas ["items"] ++ applying .schema ["additionalItems"]
    | .draft202012 =>
      keywordsFrom6 ++ keywordsFrom7 ++ keywordsFrom201909 d isAnchor202012 ++
        limiting isString ["$dynamicRef"] ++ describing isString ["$recursiveRef"] ++
        describing (isText isAnchor202012) ["$dynamicAnchor", "$recursiveAnchor"] ++
        applying .schemas ["prefixItems"] ++ applying .schema ["items"]

def keyword? (d : Draft) (name : String) : Option Keyword := d.keywords.find? (·.name == name)

def shapeOf (d : Draft) (name : String) : Shape :=
  ((d.keyword? name).map (·.shape)).getD (.value fun _ => true)

def hasBooleanSchemas (d : Draft) : Bool := d ≠ .draft4

def pairsLimits (d : Draft) (node : Json) : Bool :=
  d ≠ .draft4 ||
    ((!node.has "exclusiveMaximum" || node.has "maximum") &&
      (!node.has "exclusiveMinimum" || node.has "minimum"))

end Draft

mutual

def conforms (d : Draft) (s : Shape) : Json → Bool
  | .bool b =>
    match s with
    | .schemaOrFlag => true
    | .schema | .schemaOrSchemas | .schemaOrNames => d.hasBooleanSchemas
    | .value accepts => accepts (.bool b)
    | _ => false
  | .array xs =>
    match s with
    | .schemas | .schemaOrSchemas => !xs.isEmpty && conformsItems d xs
    | .schemaOrNames => isNameList d (.array xs)
    | .value accepts => accepts (.array xs)
    | _ => false
  | .object ms =>
    match s with
    | .schemas => false
    | .schemasByName accepts =>
      ms.all (fun m => accepts m.1) && conformsMembers d (fun _ => .schema) ms
    | .dependencies => conformsMembers d (fun _ => .schemaOrNames) ms
    | .value accepts => accepts (.object ms)
    | _ => d.pairsLimits (.object ms) && conformsMembers d d.shapeOf ms
  | v =>
    match s with
    | .value accepts => accepts v
    | _ => false

def conformsItems (d : Draft) : List Json → Bool
  | [] => true
  | x :: xs => conforms d .schema x && conformsItems d xs

def conformsMembers (d : Draft) (shape : String → Shape) : List (String × Json) → Bool
  | [] => true
  | (k, x) :: ms => conforms d (shape k) x && conformsMembers d shape ms

end

def Shape.places (s : Shape) (v : Json) : List Pointer :=
  match s, v with
  | .value _, _ => []
  | .schemas, .array xs | .schemaOrSchemas, .array xs =>
    (List.range xs.length).map fun i => [Pointer.index i]
  | .schemasByName _, .object ms => ms.map fun m => [Pointer.escape m.1]
  | .dependencies, .object ms =>
    (ms.filter fun m => !isArray m.2).map fun m => [Pointer.escape m.1]
  | .schemasByName _, _ | .dependencies, _ | .schemas, _ => []
  | _, _ => [[]]

/-- Whether a value has its shape, whatever the schemas in it look like. -/
def Shape.holds (d : Draft) (s : Shape) (v : Json) : Bool :=
  match s, v with
  | .value accepts, v => accepts v
  | .schemas, v => isArray v
  | .schemaOrSchemas, v => isArray v || v.isObject || isFlag v
  | .schemasByName accepts, .object ms => ms.all fun m => accepts m.1
  | .dependencies, .object ms => ms.all fun m => !isArray m.2 || isNameList d m.2
  | .schemasByName _, _ | .dependencies, _ => false
  | _, v => v.isObject || isFlag v

end SchemaEvolution.JsonSchema
