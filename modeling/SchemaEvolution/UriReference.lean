import SchemaEvolution.Text.Split
import SchemaEvolution.Text.Utf8

namespace SchemaEvolution

structure UriReference where
  scheme : Option (List Char)
  authority : Option (List Char)
  path : List Char
  query : Option (List Char)
  fragment : Option (List Char)
  deriving DecidableEq, Repr

namespace UriReference

def isUnreserved (c : Char) : Bool :=
  c.isAlphanum || c == '-' || c == '.' || c == '_' || c == '~'

def isSubDelimiter (c : Char) : Bool := "!$&\x27()*+,;=".toList.contains c

def isPathChar (c : Char) : Bool :=
  isUnreserved c || isSubDelimiter c || c == ':' || c == '@' || c == '/'

def isQueryChar (c : Char) : Bool := isPathChar c || c == '?'

def isHostChar (c : Char) : Bool := isUnreserved c || isSubDelimiter c

def isUserChar (c : Char) : Bool := isHostChar c || c == ':'

def allOf (accepted : Char → Bool) : List Char → Bool
  | [] => true
  | '%' :: a :: b :: cs =>
    (Text.hexValue? a).isSome && (Text.hexValue? b).isSome && allOf accepted cs
  | c :: cs => accepted c && allOf accepted cs

def isScheme : List Char → Bool
  | [] => false
  | c :: cs =>
    c.isAlpha && cs.all fun c => c.isAlphanum || c == '+' || c == '-' || c == '.'

def authorityParts (cs : List Char) : Option (List Char) × List Char × Option (List Char) :=
  let (user, rest) := match Text.cutLast? '@' cs with
    | some (u, r) => (some u, r)
    | none => (none, cs)
  match rest with
  | '[' :: inner =>
    match Text.cut? ']' inner with
    | some (h, ':' :: p) => (user, '[' :: h ++ [']'], some p)
    | some (h, after) => (user, '[' :: h ++ ']' :: after, none)
    | none => (user, rest, none)
  | _ =>
    match Text.cutLast? ':' rest with
    | some (h, p) => (user, h, some p)
    | none => (user, rest, none)

def isHost : List Char → Bool
  | '[' :: cs =>
    match cs.reverse with
    | ']' :: inner =>
      !inner.isEmpty && inner.contains ':' &&
        inner.all fun c => (Text.hexValue? c).isSome || c == ':' || c == '.'
    | _ => false
  | cs => allOf isHostChar cs

def isAuthority (cs : List Char) : Bool :=
  let (user, host, portNumber) := authorityParts cs
  (user.all (allOf isUserChar)) && isHost host && (portNumber.all (·.all Char.isDigit))

def isValid (u : UriReference) : Bool :=
  (u.scheme.all isScheme) && (u.authority.all isAuthority) && allOf isPathChar u.path &&
    (u.query.all (allOf isQueryChar)) && (u.fragment.all (allOf isQueryChar)) &&
    (u.scheme.isSome || u.authority.isSome || !(u.path.takeWhile (· != '/')).contains ':')

def split (cs : List Char) : UriReference :=
  let (front, fragment) := match Text.cut? '#' cs with
    | some (f, g) => (f, some g)
    | none => (cs, none)
  let (front, query) := match Text.cut? '?' front with
    | some (f, q) => (f, some q)
    | none => (front, none)
  let (scheme, hier) := match Text.cut? ':' front with
    | some (s, r) => if isScheme s then (some s, r) else (none, front)
    | none => (none, front)
  match hier with
  | '/' :: '/' :: rest =>
    ⟨scheme, some (rest.takeWhile (· != '/')), rest.dropWhile (· != '/'), query, fragment⟩
  | _ => ⟨scheme, none, hier, query, fragment⟩

def text (u : UriReference) : String :=
  let part (mark : List Char) (cs : Option (List Char)) := (cs.map (mark ++ ·)).getD []
  String.ofList (((u.scheme.map (· ++ [':'])).getD []) ++ part ['/', '/'] u.authority ++ u.path ++
    part ['?'] u.query ++ part ['#'] u.fragment)

def parse? (s : String) : Option UriReference :=
  let u := split s.toList
  if u.isValid then some u else none

def normalizeEscapes : List Char → List Char
  | [] => []
  | '%' :: a :: b :: cs =>
    match Text.hexValue? a, Text.hexValue? b with
    | some x, some y =>
      let c := Char.ofNat (16 * x + y)
      if isUnreserved c then c :: normalizeEscapes cs
      else '%' :: a.toUpper :: b.toUpper :: normalizeEscapes cs
    | _, _ => '%' :: normalizeEscapes (a :: b :: cs)
  | c :: cs => c :: normalizeEscapes cs

def lowerHost : List Char → List Char
  | [] => []
  | '%' :: a :: b :: cs => '%' :: a :: b :: lowerHost cs
  | c :: cs => c.toLower :: lowerHost cs

def dotless (kept : List (List Char)) : List (List Char) → List (List Char)
  | [] => kept
  | [s] =>
    if s == ".".toList then kept ++ [[]]
    else if s == "..".toList then kept.dropLast ++ [[]]
    else kept ++ [s]
  | s :: rest =>
    if s == ".".toList then dotless kept rest
    else if s == "..".toList then dotless kept.dropLast rest
    else dotless (kept ++ [s]) rest

def removeDotSegments (path : List Char) : List Char :=
  match path with
  | '/' :: rest => '/' :: ['/'].intercalate (dotless [] (Text.splitAt '/' rest))
  | cs => cs

def normalizeAuthority (cs : List Char) : List Char :=
  let (user, host, portNumber) := authorityParts (normalizeEscapes cs)
  ((user.map (· ++ ['@'])).getD []) ++ lowerHost host ++
    match portNumber with
    | none | some [] => []
    | some p => ':' :: p

def normalize (u : UriReference) : UriReference where
  scheme := u.scheme.map (·.map Char.toLower)
  authority := u.authority.map normalizeAuthority
  path :=
    let path := normalizeEscapes u.path
    if u.scheme.isSome then removeDotSegments path else path
  query := u.query.map normalizeEscapes
  fragment := u.fragment.map normalizeEscapes

def withoutFragment (u : UriReference) : UriReference := { u with fragment := none }

def mergePath (base : UriReference) (path : List Char) : List Char :=
  if base.authority.isSome && base.path.isEmpty then '/' :: path
  else (base.path.reverse.dropWhile (· != '/')).reverse ++ path

def isSolid (u : UriReference) : Bool :=
  u.authority.isNone && u.path.head? != some '/'

def isFragmentOnly (u : UriReference) : Bool :=
  u.scheme.isNone && u.authority.isNone && u.path.isEmpty && u.query.isNone

def resolveAgainst? (r base : UriReference) : Option UriReference :=
  if base.fragment.isSome then none
  else if r.scheme.isSome then some { r with path := removeDotSegments r.path }
  else if base.isSolid && !r.isFragmentOnly then none
  else if r.authority.isSome then
    some { r with scheme := base.scheme, path := removeDotSegments r.path }
  else if r.path.isEmpty then
    some { base with query := if r.query.isSome then r.query else base.query, fragment := r.fragment }
  else
    let path := if r.path.head? == some '/' then r.path else mergePath base r.path
    some { base with path := removeDotSegments path, query := r.query, fragment := r.fragment }

def resolve? (base : UriReference) (reference : String) : Option UriReference := do
  let r ← parse? reference
  let u ← r.resolveAgainst? base
  return u.normalize

end UriReference

end SchemaEvolution
