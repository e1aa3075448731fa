import SchemaEvolution.Yaml.Scalar

namespace SchemaEvolution.Yaml

def quoted (double : Bool) : Reading Yaml := do
  let c ← get
  let (text, rest) ← liftM (quotedText double (c.rest.length + 1) (c.rest.drop 1))
  set (c.advance rest)
  return .scalar (String.ofList text) false

def plain (flow : Bool) (least : Nat) : Reading Yaml := do
  let c ← get
  if startsPlain flow c.rest then
    let (text, after) ← liftM (plainText flow least (c.rest.length + 1) c)
    set after
    return .scalar (String.ofList text) true
  else failure

def isAnchorChar (c : Char) : Bool := c.isAlphanum || c == '-' || c == '_'

def anchorName : Reading String := do
  let c ← get
  let name := (c.rest.drop 1).takeWhile isAnchorChar
  if name.isEmpty then failure
  else
    set (c.advance ((c.rest.drop 1).dropWhile isAnchorChar))
    return String.ofList name

def mentionedAnchor : Reading Yaml := do
  let name ← anchorName
  liftM ((← get).anchors.lookup name)

def note (name : String) (v : Yaml) : Reading Unit :=
  modify fun c => { c with anchors := (name, v) :: c.anchors }

def passTag (flow : Bool) : Reading Unit :=
  modify fun c => c.advance (c.rest.dropWhile fun x =>
    !isGap x && !(flow && flowIndicators.contains x))

def expect (x : Char) : Reading Unit := do
  if (← get).rest.head? == some x then pass 1 false else failure

mutual

def flowNode : (fuel : Nat) → Reading Yaml
  | 0 => failure
  | fuel + 1 => do
    gap true
    match (← get).rest with
    | '[' :: _ => do pass 1 false; return .sequence (← flowItems fuel)
    | '\x7b' :: _ => do pass 1 false; return .mapping (← flowEntries fuel)
    | '\'' :: _ => quoted false
    | '"' :: _ => quoted true
    | '*' :: _ => mentionedAnchor
    | '&' :: _ => do
      let name ← anchorName
      let v ← flowNode fuel
      note name v
      return v
    | '!' :: _ => do passTag true; return (← flowNode fuel).tagged
    | ',' :: _ | ']' :: _ | '\x7d' :: _ | ':' :: _ => return .empty
    | _ => plain true 0

def flowValue? : (fuel : Nat) → Reading (Option Yaml)
  | 0 => failure
  | fuel + 1 => do
    gap true
    if (← get).rest.head? == some ':' then
      pass 1 false
      return some (← flowNode fuel)
    else return none

def flowItems : (fuel : Nat) → Reading (List Yaml)
  | 0 => failure
  | fuel + 1 => do
    gap true
    match (← get).rest.head? with
    | some ']' => do pass 1 false; return []
    | some ',' => failure
    | _ => do
      let item ← flowNode fuel
      let item := match ← flowValue? fuel with
        | some v => .mapping [(item, v)]
        | none => item
      gap true
      if (← get).rest.head? == some ']' then pass 1 false; return [item]
      else do
        expect ','
        return item :: (← flowItems fuel)

def flowEntries : (fuel : Nat) → Reading (List (Yaml × Yaml))
  | 0 => failure
  | fuel + 1 => do
    gap true
    match (← get).rest.head? with
    | some '\x7d' => do pass 1 false; return []
    | some ',' => failure
    | _ => do
      let key ← flowNode fuel
      let value := (← flowValue? fuel).getD .empty
      gap true
      if (← get).rest.head? == some '\x7d' then pass 1 false; return [(key, value)]
      else do
        expect ','
        return (key, value) :: (← flowEntries fuel)

end

def implicitKey (fuel : Nat) : Reading Yaml := do
  let c ← get
  let key ← match c.rest with
    | '"' :: _ => quoted true
    | '\'' :: _ => quoted false
    | '*' :: _ => mentionedAnchor
    | '[' :: _ | '\x7b' :: _ => flowNode fuel
    | _ => do
      if startsPlain false c.rest then
        let (text, rest) := plainLine false [] c.rest
        set (c.advance rest)
        pure (.scalar (String.ofList text) true)
      else failure
  let after ← get
  let rest := after.rest.dropWhile isSpace
  let passed := c.rest.take (c.rest.length - rest.length)
  if passed.contains '\n' then failure
  else
    match rest with
    | ':' :: more =>
      if endsWord more then
        set (after.advance more)
        return key
      else failure
    | _ => failure

def startsEntry (fuel : Nat) (c : Cursor) : Bool :=
  match c.rest with
  | '?' :: rest => endsWord rest
  | _ => ((implicitKey fuel).run c).isSome

def blockScalar (folded : Bool) (least : Nat) : Reading Yaml := do
  let c ← get
  let (header, rest) ← liftM (blockHeader? folded (c.rest.drop 1))
  let (text, rest) := blockText header least rest
  set { c.advance rest with column := 0, fresh := true }
  return .scalar (String.ofList text) false

def continues (column : Nat) : Reading Bool := do
  gap false
  let c ← get
  if c.atEnd then return false
  else if c.fresh && c.column == column then return true
  else if c.fresh && c.column < column then return false
  else failure

mutual

def blockNode : (fuel : Nat) → (least : Nat) → Reading Yaml
  | 0, _ => failure
  | fuel + 1, least => do
    gap false
    let c ← get
    if c.atEnd || (c.fresh && c.column < least) then return .empty
    else if c.atItem then
      if c.fresh then return .sequence (← blockItems fuel c.column) else failure
    else
      match c.rest with
      | '&' :: _ => do
        let name ← anchorName
        modify fun d => { d with fresh := c.fresh }
        let v ← blockNode fuel least
        note name v
        return v
      | '!' :: _ => do
        passTag false
        modify fun d => { d with fresh := c.fresh }
        return (← blockNode fuel least).tagged
      | '|' :: _ => blockScalar false least
      | '>' :: _ => blockScalar true least
      | _ =>
        if startsEntry fuel c then
          if c.fresh then return .mapping (← blockEntries fuel c.column) else failure
        else
          match c.rest with
          | '[' :: _ | '\x7b' :: _ | '"' :: _ | '\'' :: _ | '*' :: _ => flowNode fuel
          | _ => plain false least

def blockItems : (fuel : Nat) → (column : Nat) → Reading (List Yaml)
  | 0, _ => failure
  | fuel + 1, column => do
    pass 1 true
    let item ← blockNode fuel (column + 1)
    if (← continues column) && (← get).atItem then return item :: (← blockItems fuel column)
    else return [item]

def blockValue : (fuel : Nat) → (column : Nat) → Reading Yaml
  | 0, _ => failure
  | fuel + 1, column => do
    gap false
    let c ← get
    if c.fresh && c.column == column && c.atItem then
      return .sequence (← blockItems fuel column)
    else blockNode fuel (column + 1)

def blockEntries : (fuel : Nat) → (column : Nat) → Reading (List (Yaml × Yaml))
  | 0, _ => failure
  | fuel + 1, column => do
    let entry ← match (← get).rest with
      | '?' :: rest =>
        if endsWord rest then do
          pass 1 true
          let key ← blockNode fuel (column + 1)
          if (← continues column) && (← get).rest.head? == some ':' then do
            pass 1 true
            pure (key, ← blockValue fuel column)
          else pure (key, .empty)
        else do
          let key ← implicitKey fuel
          pure (key, ← blockValue fuel column)
      | _ => do
        let key ← implicitKey fuel
        pure (key, ← blockValue fuel column)
    if ← continues column then
      if startsEntry fuel (← get) then return entry :: (← blockEntries fuel column)
      else failure
    else return [entry]

end

def isAllowed (c : Char) : Bool :=
  let n := c.toNat
  c == '\t' || c == '\n' || (0x20 ≤ n && n ≤ 0x7e) || n == 0x85 ||
    (0xa0 ≤ n && n != 0xfeff && n != 0xfffe && n != 0xffff)

def normalizeBreaks : List Char → List Char
  | [] => []
  | '\r' :: '\n' :: cs => '\n' :: normalizeBreaks cs
  | '\r' :: cs => '\n' :: normalizeBreaks cs
  | c :: cs => c :: normalizeBreaks cs

def skipVersion (cs : List Char) : List Char :=
  match Text.cut? '\n' cs with
  | some (line, rest) =>
    if line ∈ ["%YAML 1.1".toList, "%YAML 1.2".toList] then rest else cs
  | none => cs

def document (fuel : Nat) : Reading (Option Yaml) := do
  gap false
  let c ← get
  if c.rest.isEmpty then return none
  else
    if c.atMarker then
      if c.rest.head? == some '-' then pass 3 false else failure
    else if c.rest.head? == some '%' then failure
    let v ← blockNode fuel 0
    gap false
    if (← get).atMarker && (← get).rest.head? == some '.' then do
      pass 3 false
      gap false
    if (← get).rest.isEmpty then return some v else failure

def parse? (s : String) : Option (Option Yaml) :=
  let cs := normalizeBreaks s.toList
  let cs := match cs with
    | '\ufeff' :: cs => cs
    | cs => cs
  if cs.all isAllowed then
    let named := skipVersion cs
    let c : Cursor := ⟨named, 0, true, []⟩
    if named.length ≠ cs.length && !(skipGap false false c named).atMarker then none
    else ((document (4 * cs.length + 8)).run c).map (·.1)
  else none

end SchemaEvolution.Yaml
