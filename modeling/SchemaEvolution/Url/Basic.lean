import SchemaEvolution.Url.Host

/-!
Absolute web addresses and references relative to them, resolved the way browsers do it.
-/

namespace SchemaEvolution

inductive UrlPath
  | solid (text : List Char)
  | segments (parts : List (List Char))
  deriving DecidableEq, Repr

structure Url where
  scheme : List Char
  username : List Char
  password : List Char
  host : Option (List Char)
  portNumber : Option Nat
  path : UrlPath
  query : Option (List Char)
  fragment : Option (List Char)
  deriving DecidableEq, Repr

namespace Url

def wellKnownSchemes : List (String × Option Nat) :=
  [("http", some 80), ("https", some 443), ("ws", some 80), ("wss", some 443), ("ftp", some 21),
   ("file", none)]

def isWellKnown (scheme : List Char) : Bool :=
  wellKnownSchemes.any (·.1 == String.ofList scheme)

def isFile (scheme : List Char) : Bool := scheme == "file".toList

def usualPort (scheme : List Char) : Option Nat :=
  (wellKnownSchemes.lookup (String.ofList scheme)).join

def withoutFragment (u : Url) : Url := { u with fragment := none }

def escapedInFragment (c : Char) : Bool := isControl c || " \"<>\x60".toList.contains c

def escapedInQuery (c : Char) : Bool := isControl c || " \"#<>".toList.contains c

def escapedInWellKnownQuery (c : Char) : Bool := escapedInQuery c || c == '\x27'

def escapedInPath (c : Char) : Bool := escapedInQuery c || "?\x60\x7b\x7d^".toList.contains c

def escapedInCredentials (c : Char) : Bool := escapedInPath c || "/:;=@[\\]|".toList.contains c

def renderPath : UrlPath → List Char
  | .solid text => text
  | .segments parts => parts.flatMap ('/' :: ·)

def renderCredentials (u : Url) : List Char :=
  if u.username.isEmpty && u.password.isEmpty then []
  else if u.password.isEmpty then u.username ++ ['@']
  else u.username ++ ':' :: u.password ++ ['@']

def renderAuthority (u : Url) : List Char :=
  match u.host with
  | some h =>
    "//".toList ++ u.renderCredentials ++ h ++
      ((u.portNumber.map fun p => ':' :: Nat.toDigits 10 p).getD [])
  | none =>
    match u.path with
    | .segments ([] :: _ :: _) => "/.".toList
    | _ => []

def render (u : Url) : List Char :=
  u.scheme ++ ':' :: u.renderAuthority ++ renderPath u.path ++
    ((u.query.map ('?' :: ·)).getD []) ++ ((u.fragment.map ('#' :: ·)).getD [])

def text (u : Url) : String := String.ofList u.render

def isDriveLetter : List Char → Bool
  | [c, d] => c.isAlpha && (d == ':' || d == '|')
  | _ => false

def isNormalDriveLetter : List Char → Bool
  | [c, ':'] => c.isAlpha
  | _ => false

def startsWithDriveLetter (cs : List Char) : Bool :=
  isDriveLetter (cs.take 2) &&
    match cs.drop 2 with
    | [] => true
    | c :: _ => "/\\?#".toList.contains c

def isSingleDot (segment : List Char) : Bool :=
  [".", "%2e"].contains (String.ofList segment).toLower

def isDoubleDot (segment : List Char) : Bool :=
  ["..", ".%2e", "%2e.", "%2e%2e"].contains (String.ofList segment).toLower

def shorten (scheme : List Char) (parts : List (List Char)) : List (List Char) :=
  match parts with
  | [p] => if isFile scheme && isNormalDriveLetter p then [p] else []
  | ps => ps.dropLast

def isSlash (scheme : List Char) (c : Char) : Bool := c == '/' || (c == '\\' && isWellKnown scheme)

def pathPieces (slash : Char → Bool) : List Char → List (List Char × Bool)
  | [] => [([], false)]
  | c :: cs =>
    if slash c then ([], true) :: pathPieces slash cs
    else match pathPieces slash cs with
      | [] => [([c], false)]
      | (p, b) :: ps => (c :: p, b) :: ps

def addPiece (scheme : List Char) (parts : List (List Char)) (piece : List Char × Bool) :
    List (List Char) :=
  let (raw, followed) := piece
  let segment := Text.Percent.encode escapedInPath raw
  if isDoubleDot segment then
    let up := shorten scheme parts
    if followed then up else up ++ [[]]
  else if isSingleDot segment then if followed then parts else parts ++ [[]]
  else
    let segment := match segment with
      | [c, '|'] => if isFile scheme && parts.isEmpty && c.isAlpha then [c, ':'] else segment
      | _ => segment
    parts ++ [segment]

def extendPath (scheme : List Char) (parts : List (List Char)) (cs : List Char) :
    List (List Char) :=
  (pathPieces (isSlash scheme) cs).foldl (addPiece scheme) parts

structure Tail where
  body : List Char
  query : Option (List Char)
  fragment : Option (List Char)

def Tail.of (wellKnown : Bool) (cs : List Char) : Tail :=
  let (front, fragment) := match Text.cut? '#' cs with
    | some (f, g) => (f, some (Text.Percent.encode escapedInFragment g))
    | none => (cs, none)
  let escaped := if wellKnown then escapedInWellKnownQuery else escapedInQuery
  match Text.cut? '?' front with
  | some (b, q) => ⟨b, some (Text.Percent.encode escaped q), fragment⟩
  | none => ⟨front, none, fragment⟩

def isEdge (c : Char) : Bool := c.toNat ≤ 0x20

def cleaned (cs : List Char) : List Char :=
  (((cs.dropWhile isEdge).reverse.dropWhile isEdge).reverse).filter fun c =>
    !(c == '\t' || c == '\n' || c == '\r')

def scheme? (cs : List Char) : Option (List Char × List Char) := do
  let (s, rest) ← Text.cut? ':' cs
  match s with
  | [] => none
  | c :: _ =>
    if c.isAlpha && s.all (fun c => c.isAlphanum || c == '+' || c == '-' || c == '.') then
      some (s.map Char.toLower, rest)
    else none

def portNumber? (scheme : List Char) (cs : List Char) : Option (Option Nat) :=
  if cs.isEmpty then some none
  else if cs.all Char.isDigit then
    let n := Nat.ofDigitChars 10 cs 0
    if 65535 < n then none
    else some (if usualPort scheme = some n then none else some n)
  else none

def hostAndPort (cs : List Char) : List Char × List Char :=
  match cs with
  | '[' :: _ =>
    match Text.cut? ']' cs with
    | some (h, ':' :: p) => (h ++ [']'], p)
    | some (h, rest) => (h ++ ']' :: rest, [])
    | none => (cs, [])
  | _ => (Text.cut? ':' cs).getD (cs, [])

def ofAuthority? (scheme authority : List Char) : Option Url := do
  let (credentials, rest) := match Text.cutLast? '@' authority with
    | some (c, r) => (some c, r)
    | none => (none, authority)
  let (h, p) := hostAndPort rest
  if h.isEmpty && (isWellKnown scheme || credentials.isSome || !p.isEmpty) then none
  let host ← if h.isEmpty then some [] else host? (isWellKnown scheme) h
  let portNumber ← portNumber? scheme p
  let (user, password) := match credentials with
    | none => ([], [])
    | some c => (Text.cut? ':' c).getD (c, [])
  return {
    scheme, host := some host, portNumber
    username := Text.Percent.encode escapedInCredentials user
    password := Text.Percent.encode escapedInCredentials password
    path := .segments [], query := none, fragment := none }

def pathAfterAuthority (scheme cs : List Char) : UrlPath :=
  match cs with
  | [] => .segments (if isWellKnown scheme then [[]] else [])
  | c :: rest => .segments (extendPath scheme [] (if isSlash scheme c then rest else cs))

def withAuthority? (scheme : List Char) (t : Tail) (cs : List Char) : Option Url := do
  let authority := cs.takeWhile (!isSlash scheme ·)
  let u ← ofAuthority? scheme authority
  return { u with
    path := pathAfterAuthority scheme (cs.dropWhile (!isSlash scheme ·))
    query := t.query, fragment := t.fragment }

def plain (scheme : List Char) (host : Option (List Char)) (path : UrlPath) (t : Tail) : Url where
  scheme := scheme
  username := []
  password := []
  host := host
  portNumber := none
  path := path
  query := t.query
  fragment := t.fragment

def parts (u : Url) : List (List Char) :=
  match u.path with
  | .solid _ => []
  | .segments ps => ps

def fileAddress? (base : Option Url) (t : Tail) : Option Url :=
  let scheme := "file".toList
  let slash := isSlash scheme
  let fromBase := base.filter fun b => isFile b.scheme
  let driveOfBase := match fromBase with
    | some b => b.parts.take 1 |>.filter isNormalDriveLetter
    | none => []
  match t.body with
  | c :: d :: rest =>
    if slash c && slash d then
      let name := rest.takeWhile (!slash ·)
      let after := rest.dropWhile (!slash ·)
      let pathOf (cs : List Char) : UrlPath := match cs with
        | [] => .segments [[]]
        | _ :: cs => .segments (extendPath scheme [] cs)
      if isDriveLetter name then
        some (plain scheme (some []) (.segments (extendPath scheme [] rest)) t)
      else if name.isEmpty then some (plain scheme (some []) (pathOf after) t)
      else do
        let h ← host? true name
        let h := if h == "localhost".toList then [] else h
        return plain scheme (some h) (pathOf after) t
    else if slash c then
      let host := (fromBase >>= (·.host)).getD []
      let start := if startsWithDriveLetter (d :: rest) then [] else driveOfBase
      some (plain scheme (some host) (.segments (extendPath scheme start (d :: rest))) t)
    else relative (c :: d :: rest)
  | [c] =>
    if slash c then
      let host := (fromBase >>= (·.host)).getD []
      some (plain scheme (some host) (.segments (extendPath scheme driveOfBase [])) t)
    else relative [c]
  | [] =>
    match fromBase with
    | some b =>
      some { b with query := if t.query.isSome then t.query else b.query, fragment := t.fragment }
    | none => some (plain scheme (some []) (.segments [[]]) t)
where
  relative (cs : List Char) : Option Url :=
    let scheme := "file".toList
    match base.filter fun b => isFile b.scheme with
    | some b =>
      let start := if startsWithDriveLetter cs then [] else shorten scheme b.parts
      some { b with
        path := .segments (extendPath scheme start cs), query := t.query, fragment := t.fragment }
    | none => some (plain scheme (some []) (.segments (extendPath scheme [] cs)) t)

def relativeTo? (b : Url) (t : Tail) : Option Url :=
  match t.body with
  | [] =>
    some { b with query := if t.query.isSome then t.query else b.query, fragment := t.fragment }
  | c :: rest =>
    if isSlash b.scheme c then
      match rest with
      | d :: more =>
        if isSlash b.scheme d then
          withAuthority? b.scheme t
            (if isWellKnown b.scheme then more.dropWhile (isSlash b.scheme) else more)
        else some { b with
          path := .segments (extendPath b.scheme [] rest), query := t.query
          fragment := t.fragment }
      | [] => some { b with
          path := .segments (extendPath b.scheme [] []), query := t.query, fragment := t.fragment }
    else some { b with
      path := .segments (extendPath b.scheme (shorten b.scheme b.parts) t.body)
      query := t.query, fragment := t.fragment }

def otherScheme? (scheme : List Char) (t : Tail) : Option Url :=
  match t.body with
  | '/' :: '/' :: rest => withAuthority? scheme t rest
  | '/' :: rest => some (plain scheme none (.segments (extendPath scheme [] rest)) t)
  | cs => some (plain scheme none (.solid (Text.Percent.encode isControl cs)) t)

def resolveChars? (base : Option Url) (input : List Char) : Option Url :=
  let cs := cleaned input
  match scheme? cs with
  | some (scheme, rest) =>
    let t := Tail.of (isWellKnown scheme) rest
    if isFile scheme then fileAddress? base t
    else if isWellKnown scheme then
      match base, t.body with
      | _, '/' :: '/' :: more => withAuthority? scheme t (more.dropWhile (isSlash scheme))
      | some b, body =>
        if b.scheme = scheme then relativeTo? b t
        else withAuthority? scheme t (body.dropWhile (isSlash scheme))
      | none, body => withAuthority? scheme t (body.dropWhile (isSlash scheme))
    else otherScheme? scheme t
  | none =>
    match base with
    | none => none
    | some b =>
      match b.path with
      | .solid _ =>
        match cs with
        | '#' :: f => some { b with fragment := some (Text.Percent.encode escapedInFragment f) }
        | _ => none
      | .segments _ =>
        let t := Tail.of (isWellKnown b.scheme) cs
        if isFile b.scheme then fileAddress? (some b) t else relativeTo? b t

def parse? (s : String) : Option Url := resolveChars? none s.toList

def join? (base : Url) (reference : String) : Option Url := resolveChars? (some base) reference.toList

end Url

end SchemaEvolution
