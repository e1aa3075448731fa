import SchemaEvolution.Text.Percent
import SchemaEvolution.Text.Split
import SchemaEvolution.Url.Punycode

namespace SchemaEvolution.Url

def isControl (c : Char) : Bool := c.toNat ≤ 0x1f || 0x7e < c.toNat

def isForbiddenInHost (c : Char) : Bool :=
  c.toNat == 0 || "\t\n\r #/:<>?@[\\]^|".toList.contains c

def isForbiddenInDomain (c : Char) : Bool :=
  isForbiddenInHost c || c.toNat ≤ 0x1f || c == '%' || c.toNat == 0x7f

def numericPart? (cs : List Char) : Option Nat :=
  let read (base : Nat) (ds : List Char) : Option Nat :=
    ds.foldlM (fun n c => do
      let d ← Text.hexValue? c
      if d < base then some (base * n + d) else none) 0
  match cs with
  | [] => none
  | '0' :: 'x' :: ds => read 16 ds
  | '0' :: 'X' :: ds => read 16 ds
  | '0' :: d :: ds => read 8 (d :: ds)
  | ds => read 10 ds

def hostParts (cs : List Char) : List (List Char) :=
  let parts := Text.splitAt '.' cs
  match parts.reverse with
  | [] :: before => if before.isEmpty then parts else before.reverse
  | _ => parts

def endsInNumber (cs : List Char) : Bool :=
  match (hostParts cs).reverse with
  | [] => false
  | last :: _ => (!last.isEmpty && last.all Char.isDigit) || (numericPart? last).isSome

def numericAddress? (cs : List Char) : Option Nat := do
  let parts ← (hostParts cs).mapM numericPart?
  match parts.reverse with
  | [] => none
  | last :: before =>
    if 4 < parts.length || before.any (255 < ·) then none
    else if Nat.pow 256 (5 - parts.length) ≤ last then none
    else
      let firsts := before.reverse.zipIdx.map fun p => p.1 * Nat.pow 256 (3 - p.2)
      some (firsts.foldl (· + ·) last)

def renderNumericAddress (n : Nat) : List Char :=
  ".".toList.intercalate ([3, 2, 1, 0].map fun i => Nat.toDigits 10 (n / Nat.pow 256 i % 256))

def hexPiece? (cs : List Char) : Option Nat :=
  if cs.isEmpty || 4 < cs.length then none
  else cs.foldlM (fun n c => (Text.hexValue? c).map (16 * n + ·)) 0

def dottedByte? (cs : List Char) : Option Nat :=
  match cs with
  | '0' :: _ :: _ => none
  | _ =>
    if cs.isEmpty || !cs.all Char.isDigit then none
    else
      let n := Nat.ofDigitChars 10 cs 0
      if n ≤ 255 then some n else none

def sidePieces? (allowDotted : Bool) (cs : List Char) : Option (List Nat) :=
  if cs.isEmpty then some []
  else
    let parts := Text.splitAt ':' cs
    match parts.reverse with
    | [] => some []
    | last :: before =>
      if last.contains '.' then do
        if !allowDotted then none
        let firsts ← before.reverse.mapM hexPiece?
        match Text.splitAt '.' last with
        | [a, b, c, d] => do
          let a ← dottedByte? a
          let b ← dottedByte? b
          let c ← dottedByte? c
          let d ← dottedByte? d
          return firsts ++ [256 * a + b, 256 * c + d]
        | _ => none
      else parts.mapM hexPiece?

def cutGap? : List Char → Option (List Char × List Char)
  | [] => none
  | ':' :: ':' :: rest => some ([], rest)
  | c :: cs => (cutGap? cs).map fun r => (c :: r.1, r.2)

def longAddress? (cs : List Char) : Option (List Nat) :=
  match cutGap? cs with
  | none => do
    let ps ← sidePieces? true cs
    if ps.length = 8 then some ps else none
  | some (left, right) => do
    let ls ← sidePieces? false left
    let rs ← sidePieces? true right
    let n := ls.length + rs.length
    if n ≤ 7 then some (ls ++ List.replicate (8 - n) 0 ++ rs) else none

def longestZeroRun (ps : List Nat) : Option (Nat × Nat) :=
  let runs := (List.range ps.length).map fun i => (i, ((ps.drop i).takeWhile (· == 0)).length)
  runs.foldl (fun best r =>
    match best with
    | none => if 2 ≤ r.2 then some r else none
    | some b => if b.2 < r.2 then some r else some b) none

def renderLongAddress (ps : List Nat) : List Char :=
  let hex (qs : List Nat) : List Char := ":".toList.intercalate (qs.map Text.hexNumeral)
  match longestZeroRun ps with
  | none => hex ps
  | some (start, count) => hex (ps.take start) ++ "::".toList ++ hex (ps.drop (start + count))

/-- A host name in lower case, with each label in ASCII. -/
def asciiDomain (cs : List Char) : List Char :=
  ".".toList.intercalate ((Text.splitAt '.' (cs.flatMap foldCase)).map asciiLabel)

def domain? (cs : List Char) : Option (List Char) := do
  let name ← Text.ofUtf8? (Text.Percent.decode cs)
  let name := asciiDomain name.toList
  if name.isEmpty || name.any isForbiddenInDomain then none
  else if endsInNumber name then (numericAddress? name).map renderNumericAddress
  else some name

def host? (wellKnown : Bool) (cs : List Char) : Option (List Char) :=
  match cs with
  | '[' :: rest =>
    match rest.reverse with
    | ']' :: inner => do
      let ps ← longAddress? inner.reverse
      return '[' :: renderLongAddress ps ++ [']']
    | _ => none
  | _ =>
    if wellKnown then domain? cs
    else if cs.any isForbiddenInHost then none
    else some (Text.Percent.encode isControl cs)

end SchemaEvolution.Url
