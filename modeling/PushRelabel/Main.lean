import PushRelabel.CommandLine.Run

/-! # The program

Arguments and files go in; the listing goes to the standard output, notes and
errors go to the standard error.
-/

namespace PushRelabel.CommandLine

/-- Systems report both uses of a wrong kind of file alike, with different codes. -/
def fileError : IO.Error → FileError
  | .inappropriateType _ code _ => if code = 21 then .isDirectory else .notDirectory
  | _ => .missing

def readFile (path : String) : IO (Except FileError (List UInt8)) := do
  try
    return .ok (← IO.FS.readBinFile path).toList
  catch e => return .error (fileError e)

/-- The content of each of some files. -/
def readFiles (paths : List String) : IO Files := do
  let contents ← paths.mapM fun path => return (path, ← readFile path)
  return fun path => (contents.lookup path).getD (.error .missing)

def usage : String :=
  "Usage: [OPTIONS] --source <SOURCE>... --target <TARGET>... [--] <ARCS>"

/-- More steps than any run can take. -/
def stepLimit : Nat := 1 <<< 62

def execute (args : Arguments) : IO UInt32 := do
  let files ← readFiles (args.arcs :: args.nodeCapacities.toList)
  let now := Moment.ofMillis (← IO.monoMsNow)
  match run args files now stepLimit #[] with
  | .ok listing notes =>
      notes.forM IO.eprintln
      IO.print listing
      return 0
  | .error failure notes =>
      notes.forM IO.eprintln
      IO.eprint failure.text
      return failure.exitCode

end PushRelabel.CommandLine

def main (words : List String) : IO UInt32 := do
  match PushRelabel.CommandLine.Arguments.read words with
  | .ok args => PushRelabel.CommandLine.execute args
  | .error rejection =>
      IO.eprintln PushRelabel.CommandLine.usage
      return rejection.exitCode
