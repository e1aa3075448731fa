import SchemaEvolution.Pattern.Property
import SchemaEvolution.Text.Utf8

/-!
The grammar of regular expressions, as far as it decides whether a text is one. The plain dialect
has classes, groups and repetitions. The first group that looks around starts the extended dialect,
which also knows references to groups and takes a brace that counts nothing for itself.
-/

namespace SchemaEvolution.Pattern

inductive Dialect
  | plain
  | extended
  deriving DecidableEq, Repr

inductive Escaped
  | char (code : Nat)
  | set
  | place
  | group
  deriving DecidableEq, Repr

def letterMeanings (d : Dialect) : List (Char × Escaped) :=
  [('f', .char 12), ('n', .char 10), ('r', .char 13), ('t', .char 9), ('v', .char 11)] ++
    ("dDsSwW".toList.map (·, Escaped.set)) ++ ("AzbB<>".toList.map (·, Escaped.place)) ++
    match d with
    | .plain => []
    | .extended =>
      [('a', .char 7), ('e', .char 27), ('h', .set), ('H', .set)] ++
        ("ZGK".toList.map (·, Escaped.place))

def isPunctuation (c : Char) : Bool := c.toNat < 0x80 && !c.isAlphanum

def isHex (c : Char) : Bool := (Text.hexValue? c).isSome

def scalar? (n : Nat) : Option Escaped := if n.isValidChar then some (.char n) else none

def takeCode? (count : Nat) : List Char → Option (Escaped × List Char)
  | '\x7b' :: cs => do
    let (ds, rest) ← Text.cut? '\x7d' cs
    if ds.isEmpty || !ds.all isHex then none
    else return (← scalar? (Text.ofHexDigits ds), rest)
  | cs => do
    let ds := cs.take count
    if ds.length = count && ds.all isHex then
      return (← scalar? (Text.ofHexDigits ds), cs.drop count)
    else none

def isName (cs : List Char) : Bool :=
  match cs with
  | [] => false
  | c :: _ => !c.isDigit && cs.all fun c => c.isAlphanum || c == '_'

def takeEscape? (d : Dialect) : List Char → Option (Escaped × List Char)
  | [] => none
  | 'x' :: cs => takeCode? 2 cs
  | 'u' :: cs => takeCode? 4 cs
  | 'U' :: cs => takeCode? 8 cs
  | 'c' :: c :: cs =>
    if d = .plain && c.isAlpha then some (.char (c.toUpper.toNat - 64), cs) else none
  | 'k' :: '<' :: cs => do
    let (name, rest) ← Text.cut? '>' cs
    if d = .extended && isName name then return (.group, rest) else none
  | 'p' :: '\x7b' :: cs | 'P' :: '\x7b' :: cs => do
    let (name, rest) ← Text.cut? '\x7d' cs
    if isProperty name then return (.set, rest) else none
  | 'p' :: c :: cs | 'P' :: c :: cs => if isProperty [c] then some (.set, cs) else none
  | c :: cs =>
    match (letterMeanings d).lookup c with
    | some e => some (e, cs)
    | none =>
      if c.isDigit then
        if d = .extended then some (.group, cs.dropWhile Char.isDigit) else none
      else if isPunctuation c then some (.char c.toNat, cs)
      else none

def takeClassAtom? (d : Dialect) : List Char → Option (Option Nat × List Char)
  | [] => none
  | '\\' :: cs =>
    match takeEscape? d cs with
    | some (.char n, rest) => some (some n, rest)
    | some (.set, rest) => some (none, rest)
    | _ => none
  | c :: cs => some (some c.toNat, cs)

def namedClasses : List String :=
  ["alnum", "alpha", "ascii", "blank", "cntrl", "digit", "graph", "lower", "print", "punct",
   "space", "upper", "word", "xdigit"]

def takeNamedClass? (cs : List Char) : Option (List Char) := do
  let (name, rest) ← Text.cut? ':' (if cs.head? == some '^' then cs.drop 1 else cs)
  match rest with
  | ']' :: rest => if namedClasses.contains (String.ofList name) then some rest else none
  | _ => none

def skipClassStart (cs : List Char) : List Char :=
  let cs := if cs.head? == some '^' then cs.drop 1 else cs
  let after := cs.dropWhile (· == '-')
  if after.length = cs.length && after.head? == some ']' then after.drop 1 else after

def takeClass? (d : Dialect) : (fuel depth : Nat) → List Char → Option (List Char)
  | 0, _, _ => none
  | _ + 1, _, [] => none
  | _ + 1, 0, ']' :: cs => some cs
  | fuel + 1, depth + 1, ']' :: cs => takeClass? d fuel depth cs
  | fuel + 1, depth, '[' :: cs =>
    match cs with
    | ':' :: rest =>
      match takeNamedClass? rest with
      | some after => takeClass? d fuel depth after
      | none => takeClass? d fuel (depth + 1) (skipClassStart cs)
    | _ => takeClass? d fuel (depth + 1) (skipClassStart cs)
  | fuel + 1, depth, '&' :: '&' :: cs | fuel + 1, depth, '-' :: '-' :: cs
  | fuel + 1, depth, '~' :: '~' :: cs => takeClass? d fuel depth cs
  | fuel + 1, depth, cs => do
    let (low, rest) ← takeClassAtom? d cs
    match rest with
    | '-' :: ']' :: _ | '-' :: '-' :: _ => takeClass? d fuel depth rest
    | '-' :: after =>
      let (high, rest) ← takeClassAtom? d after
      if (← low) ≤ (← high) then takeClass? d fuel depth rest else none
    | _ => takeClass? d fuel depth rest

def takeCounts? (cs : List Char) : Option (Bool × List Char) := do
  let (inner, rest) ← Text.cut? '\x7d' cs
  let low := inner.takeWhile Char.isDigit
  if low.isEmpty then none
  else match inner.dropWhile Char.isDigit with
    | [] => some (true, rest)
    | ',' :: high =>
      if high.isEmpty then some (true, rest)
      else if high.all Char.isDigit then
        some (Nat.ofDigitChars 10 low 0 ≤ Nat.ofDigitChars 10 high 0, rest)
      else none
    | _ => none

def skipMark : List Char → List Char
  | '?' :: cs => cs
  | cs => cs

inductive GroupHead
  | body
  | lookAround
  | atomic
  | flags
  deriving DecidableEq, Repr

def areFlags (cs : List Char) : Bool :=
  let letters := cs.filter (· != '-')
  letters.all "imsxuUR".toList.contains && decide letters.Nodup && cs.getLast? != some '-' &&
    cs.length ≤ letters.length + 1

def takeGroupHead? : List Char → Option (GroupHead × List Char)
  | '=' :: cs | '!' :: cs | '<' :: '=' :: cs | '<' :: '!' :: cs => some (.lookAround, cs)
  | '>' :: cs => some (.atomic, cs)
  | '<' :: cs | 'P' :: '<' :: cs => do
    let (name, rest) ← Text.cut? '>' cs
    if isName name then some (.body, rest) else none
  | cs =>
    let flags := cs.takeWhile fun c => c.isAlpha || c == '-'
    match cs.dropWhile fun c => c.isAlpha || c == '-' with
    | ':' :: rest => if areFlags flags then some (.body, rest) else none
    | ')' :: rest => if !flags.isEmpty && areFlags flags then some (.flags, rest) else none
    | _ => none

def takeAll : (fuel : Nat) → (d : Dialect) → (groups : List Bool) → (repeatable : Bool) →
    List Char → Bool
  | 0, _, _, _, _ => false
  | _ + 1, _, groups, _, [] => groups.isEmpty
  | fuel + 1, d, groups, repeatable, c :: cs =>
    match c with
    | '(' =>
      match cs with
      | '?' :: head =>
        match takeGroupHead? head with
        | some (.body, rest) => takeAll fuel d (true :: groups) false rest
        | some (.lookAround, rest) => takeAll fuel .extended (false :: groups) false rest
        | some (.atomic, rest) => d = .extended && takeAll fuel d (true :: groups) false rest
        | some (.flags, rest) => takeAll fuel d groups false rest
        | none => false
      | _ => takeAll fuel d (true :: groups) false cs
    | ')' =>
      match groups with
      | [] => false
      | g :: groups => takeAll fuel d groups g cs
    | '|' => takeAll fuel d groups false cs
    | '^' | '$' => takeAll fuel d groups false cs
    | '*' | '+' | '?' => repeatable && takeAll fuel d groups true (skipMark cs)
    | '\x7b' =>
      match takeCounts? cs with
      | some (rising, rest) => repeatable && rising && takeAll fuel d groups true (skipMark rest)
      | none => d = .extended && takeAll fuel d groups true cs
    | '[' =>
      match takeClass? d fuel 0 (skipClassStart cs) with
      | some rest => takeAll fuel d groups true rest
      | none => false
    | '\\' =>
      match takeEscape? d cs with
      | some (.place, rest) => takeAll fuel d groups false rest
      | some (_, rest) => takeAll fuel d groups true rest
      | none => false
    | _ => takeAll fuel d groups true cs

def isValid (s : String) : Bool := takeAll (s.length + 1) .plain [] false s.toList

end SchemaEvolution.Pattern
