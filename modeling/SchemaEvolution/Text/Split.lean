namespace SchemaEvolution.Text

def splitAt (sep : Char) : List Char → List (List Char)
  | [] => [[]]
  | c :: cs =>
    if c = sep then [] :: splitAt sep cs
    else match splitAt sep cs with
      | [] => [[c]]
      | piece :: pieces => (c :: piece) :: pieces

def cut? (sep : Char) (cs : List Char) : Option (List Char × List Char) :=
  match cs.dropWhile (· != sep) with
  | [] => none
  | _ :: rest => some (cs.takeWhile (· != sep), rest)

def cutLast? (sep : Char) (cs : List Char) : Option (List Char × List Char) :=
  (cut? sep cs.reverse).map fun r => (r.2.reverse, r.1.reverse)

def isInfix (needle : List Char) : List Char → Bool
  | [] => needle.isEmpty
  | c :: cs => needle.isPrefixOf (c :: cs) || isInfix needle cs

def mentions (needle text : String) : Bool := isInfix needle.toList text.toList

end SchemaEvolution.Text
