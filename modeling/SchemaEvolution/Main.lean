import SchemaEvolution.CommandLine.Run
import Std.Time

namespace SchemaEvolution

open CommandLine

def readIfPresent (path : String) : IO (Option (List UInt8)) := do
  try
    return some (← IO.FS.readBinFile path).data.toList
  catch _ => return none

def newStamp : IO Stamp := do
  let bytes ← IO.getRandomBytes 16
  let now ← Std.Time.Timestamp.now
  let time := Std.Time.DateTime.ofTimestamp now .UTC
  return ⟨ContentId.text (ContentId.mark 4 bytes.data.toList),
    time.format "uuuu-MM-dd'T'HH:mm:ss.SSSSSSSSS'Z'"⟩

def candidatePaths (args : List String) : List String :=
  args.flatMap fun s =>
    match wordOf s with
    | .long _ (some value) => [s, value]
    | .short _ rest => s :: (attachedValue? rest).toList
    | _ => [s]

end SchemaEvolution

open SchemaEvolution CommandLine in
def main (args : List String) : IO UInt32 := do
  let contents ← (candidatePaths args).mapM fun path => do
    return (path, ← readIfPresent path)
  let r := CommandLine.run (fun path => (contents.lookup path).join) (← newStamp) args
  for text in r.output do
    IO.println text
  match r.error with
  | some message => IO.eprintln ("ERROR: " ++ message)
  | none => pure ()
  return UInt32.ofNat r.exitCode
