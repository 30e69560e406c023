import RealMedia.Listing.Walk

/-! The command line program: list the objects and packets of a file. -/

open RealMedia

/-- The bytes of a file, if it can be read. -/
def readFile? (name : String) : IO (Option Bytes) :=
  try
    return some (← IO.FS.readBinFile name).toList
  catch _ => return none

def main (args : List String) : IO Unit := do
  let file ← match args with
    | [] => pure none
    | name :: _ => readFile? name
  for line in Listing.command (fun _ => file) args do
    IO.println line.text
