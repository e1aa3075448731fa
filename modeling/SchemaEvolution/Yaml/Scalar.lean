import SchemaEvolution.Text.Utf8
import SchemaEvolution.Text.Split
import SchemaEvolution.Yaml.Basic

namespace SchemaEvolution.Yaml

def indicators : List Char := "-?:,[]\x7b\x7d#&*!|>'\"%@`".toList

def flowIndicators : List Char := ",[]\x7b\x7d".toList

def startsPlain (flow : Bool) : List Char → Bool
  | [] => false
  | c :: cs =>
    !isGap c &&
      (!indicators.contains c || (c == '-' && !(cs.head?.any isSpace)) ||
        (!flow && (c == '?' || c == ':') && !endsWord cs))

def plainLine (flow : Bool) (spaces : List Char) : List Char → List Char × List Char
  | [] => ([], spaces)
  | c :: cs =>
    if isSpace c then plainLine flow (spaces ++ [c]) cs
    else if c == '\n' || (c == '#' && !spaces.isEmpty) || (c == ':' && endsWord cs) ||
        (flow && flowIndicators.contains c) then
      ([], spaces ++ c :: cs)
    else
      let (text, rest) := plainLine flow [] cs
      (spaces ++ c :: text, rest)

def tabsIndent (least column : Nat) (broken : Bool) : List Char → Bool
  | [] => false
  | c :: cs =>
    if c == '\n' then tabsIndent least 0 true cs
    else (broken && c == '\t' && column < least) || tabsIndent least (column + 1) broken cs

def plainText (flow : Bool) (least : Nat) : (fuel : Nat) → Cursor → Option (List Char × Cursor)
  | 0, _ => none
  | fuel + 1, c =>
    let (text, rest) := plainLine flow [] c.rest
    let here := c.advance rest
    let spaces := rest.takeWhile isGap
    let next := here.advance (rest.dropWhile isGap)
    let breaks := spaces.count '\n'
    if breaks = 0 || next.atEnd || next.rest.head? == some '#' then some (text, here)
    else if !flow && tabsIndent least here.column false spaces then none
    else if !flow && next.column < least then some (text, here)
    else
      match plainText flow least fuel next with
      | none => none
      | some ([], _) => some (text, here)
      | some (more, after) => some (text ++ foldBreaks breaks ++ more, after)

def escapes : List (Char × Char) :=
  [('0', '\x00'), ('a', '\x07'), ('b', '\x08'), ('t', '\t'), ('\t', '\t'), ('n', '\n'),
    ('v', '\x0b'), ('f', '\x0c'), ('r', '\r'), ('e', '\x1b'), (' ', ' '), ('"', '"'),
    ('/', '/'), ('\\', '\\'), ('N', '\u0085'), ('_', '\u00a0'), ('L', '\u2028'), ('P', '\u2029')]

def codeChar? (count : Nat) (cs : List Char) : Option (Char × List Char) :=
  let ds := cs.take count
  let n := Text.ofHexDigits ds
  if ds.length = count ∧ (ds.all fun d => (Text.hexValue? d).isSome) ∧ n.isValidChar then
    some (Char.ofNat n, cs.drop count)
  else none

def escape? : List Char → Option (Char × List Char)
  | 'x' :: cs => codeChar? 2 cs
  | 'u' :: cs => codeChar? 4 cs
  | 'U' :: cs => codeChar? 8 cs
  | c :: cs => (escapes.lookup c).map (·, cs)
  | [] => none

def quotedText (double : Bool) : (fuel : Nat) → List Char → Option (List Char × List Char)
  | 0, _ => none
  | fuel + 1, cs =>
    let andThen (text rest : List Char) :=
      (quotedText double fuel rest).map fun r => (text ++ r.1, r.2)
    match double, cs with
    | _, [] => none
    | false, '\'' :: '\'' :: rest => andThen ['\''] rest
    | false, '\'' :: rest | true, '"' :: rest => some ([], rest)
    | true, '\\' :: '\n' :: rest => andThen [] (rest.dropWhile isSpace)
    | true, '\\' :: rest =>
      match escape? rest with
      | some (c, rest) => andThen [c] rest
      | none => none
    | _, c :: rest =>
      if isGap c then
        let spaces := (c :: rest).takeWhile isGap
        let rest := (c :: rest).dropWhile isGap
        let breaks := spaces.count '\n'
        if breaks = 0 then andThen spaces rest
        else if spaces.getLast? == some '\n' && Cursor.atMarker ⟨rest, 0, false, []⟩ then none
        else andThen (foldBreaks breaks) rest
      else andThen [c] rest

inductive Chomping
  | clip
  | strip
  | keep
  deriving DecidableEq, Repr

structure BlockHeader where
  folded : Bool
  chomping : Chomping
  indent : Option Nat

def blockHeader? (folded : Bool) (cs : List Char) : Option (BlockHeader × List Char) :=
  let marks := cs.takeWhile fun c => c == '+' || c == '-' || c.isDigit
  let after := cs.dropWhile fun c => c == '+' || c == '-' || c.isDigit
  let line := after.takeWhile (· != '\n')
  let rest := (after.dropWhile (· != '\n')).drop 1
  let blank := line.dropWhile isSpace
  let chomping := if marks.contains '-' then .strip else if marks.contains '+' then .keep else .clip
  let digits := marks.filter Char.isDigit
  let indent := digits.head?.map fun d => d.toNat - '0'.toNat
  if marks.length - digits.length ≤ 1 ∧ digits.length ≤ 1 ∧ indent ≠ some 0 ∧
      (blank.isEmpty ∨ blank.head? = some '#') then
    some (⟨folded, chomping, indent⟩, rest)
  else none

def indentOf (line : List Char) : Nat := (line.takeWhile (· == ' ')).length

def isBlankLine (line : List Char) : Bool := line.all (· == ' ')

def splitBlock (indent : Nat) : List (List Char) → List (List Char) × List (List Char)
  | [] => ([], [])
  | l :: ls =>
    if isBlankLine l || indent ≤ indentOf l then
      let (block, rest) := splitBlock indent ls
      (l.drop indent :: block, rest)
    else ([], l :: ls)

/-- Joins lines; `blanks` empty lines came since the last one, which was `previous`. Only lines that
are not indented any further are folded. -/
def joinLines (folded : Bool) (previous : Option (List Char)) (blanks : Nat) :
    List (List Char) → List Char
  | [] => []
  | [] :: ls => joinLines folded previous (blanks + 1) ls
  | l :: ls =>
    let isDeep (l : List Char) : Bool := l.head?.any isSpace
    let between :=
      match previous with
      | none => List.replicate blanks '\n'
      | some p =>
        if folded && !isDeep p && !isDeep l then
          if blanks = 0 then [' '] else List.replicate blanks '\n'
        else List.replicate (blanks + 1) '\n'
    between ++ l ++ joinLines folded (some l) 0 ls

def blockText (h : BlockHeader) (least : Nat) (cs : List Char) : List Char × List Char :=
  let lines := Text.splitAt '\n' cs
  let indent :=
    match h.indent with
    | some n => (least - 1) + n
    | none =>
      max (max least 1) (((lines.find? (!isBlankLine ·)).map indentOf).getD 0)
  let (block, rest) := splitBlock indent lines
  let body := (block.reverse.dropWhile List.isEmpty).reverse
  let trailing := block.length - body.length - (if rest.isEmpty then 1 else 0)
  let tail :=
    match h.chomping with
    | .strip => []
    | .clip => if body.isEmpty then [] else ['\n']
    | .keep => List.replicate (trailing + if body.isEmpty then 0 else 1) '\n'
  (joinLines h.folded none 0 body ++ tail,
    if rest.isEmpty then [] else ['\n'].intercalate rest)

end SchemaEvolution.Yaml
