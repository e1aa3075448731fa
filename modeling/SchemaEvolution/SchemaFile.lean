import SchemaEvolution.ContentId
import SchemaEvolution.Text.Utf8

namespace SchemaEvolution

def ContentId.text (bytes : List UInt8) : String :=
  let part (start size : Nat) := Text.toHex ((bytes.drop start).take size)
  "-".intercalate [part 0 4, part 4 2, part 6 2, part 8 2, part 10 6]

def ContentId.of (data : List UInt8) : String :=
  let hash := ContentId.sha1 (ContentId.objectIdentifiers ++ data)
  ContentId.text (ContentId.mark 5 (hash.take 16))

structure SchemaFile where
  types : List String
  fields : List String
  data : List UInt8
  deriving DecidableEq, Repr

def SchemaFile.id (f : SchemaFile) : String := ContentId.of f.data

end SchemaEvolution
