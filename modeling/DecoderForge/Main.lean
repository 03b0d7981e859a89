import DecoderForge.CommandLine.Session

/-!
# DecoderForge — the program

The program copies what a command line can reach from the file system to a disk, runs the command line
there, and copies back what has changed.
-/

namespace DecoderForge.CommandLine

/-- A location as a path from the root. -/
def rooted (l : Location) : String := "/" ++ String.intercalate "/" l

/-- Copies what stands at a location to the disk. -/
def capture (d : Disk) (l : Location) : IO Disk := do
  let path := (← IO.currentDir) / rooted l
  if ← path.isDir then return d.put l .folder
  if ← path.pathExists then return d.put l (.file (← IO.FS.readBinFile path).toList)
  return d

/-- Copies what stands on the way of a path to the disk, and what a folder at its end holds. -/
def captureWay (d : Disk) (path : List Char) : IO Disk := do
  let way := d.way path
  let d ← way.foldlM capture d
  match way.getLast? with
  | none => return d
  | some l =>
    let folder := (← IO.currentDir) / rooted l
    if ← folder.isDir then
      (← folder.readDir).foldlM (fun d e => capture d (l ++ [e.fileName])) d
    else return d

/-- Copies a change back. -/
def release (l : Location) : DiskEntry → IO Unit
  | .folder => IO.FS.createDirAll (rooted l)
  | .file bytes => IO.FS.writeBinFile (rooted l) ⟨bytes.toArray⟩

/-- The environment of the program. -/
def readEnvironment : IO Layers.Environment := do
  let block ← IO.FS.readBinFile "/proc/self/environ"
  return .ofBlock (Text.decodeLossy block.toList)

/-- Runs a command line on the file system.  What it can reach may depend on a configuration that has to
be captured first. -/
def executeOnFiles (words : List String) : IO Outcome := do
  let env ← readEnvironment
  let here := (← IO.currentDir).toString.splitOn "/"
  let d := Disk.withFolder (here.filter fun s => !s.isEmpty)
  let d ← (reach env words d).foldlM captureWay d
  let d ← (reach env words d).foldlM captureWay d
  let (outcome, after) := execute env words d
  for (l, e) in d.changes after do release l e
  return outcome

end DecoderForge.CommandLine

/-- The command line program. -/
def main (args : List String) : IO UInt32 := do
  let outcome ← DecoderForge.CommandLine.executeOnFiles args
  IO.print outcome.stdout
  IO.eprint outcome.stderr
  return outcome.status.toUInt32
