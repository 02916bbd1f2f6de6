import Crosswalk.CommandLine.Run
import Std.Time.Format

namespace Crosswalk.Main

partial def readTree (entries : Array IO.FS.DirEntry) : IO Tree := do
  let mut found := #[]
  for entry in entries do
    match (← entry.path.symlinkMetadata).type with
    | .dir => found := found.push (entry.fileName, ← readTree (← entry.path.readDir))
    | .file =>
      let file ← try pure (.file (← IO.FS.readBinFile entry.path).toList) catch _ => pure .other
      found := found.push (entry.fileName, file)
    | .other => found := found.push (entry.fileName, .other)
    | .symlink => pure ()
  return .dir found.toList

def writeFile (path : String) (content : Bytes) : IO Unit := do
  let parent := Tree.parentPath path
  unless parent.isEmpty do IO.FS.createDirAll parent
  IO.FS.writeBinFile path (.mk content.toArray)

def readEnvironment : IO Environment := do
  try
    return .ofBlock (← IO.FS.readBinFile "/proc/self/environ").toList
  catch _ => return Table.empty

/-- A run without network and other programs takes no time. -/
def stamps : IO Stamps := do
  let now := (Std.Time.DateTime.ofTimestamp (← Std.Time.Timestamp.now) .UTC).toISO8601String
  return ⟨Stamps.idOfBytes (← IO.getRandomBytes 16).toList, now, now, "0"⟩

/-- The program as it runs here, without network and other programs. -/
def run (args : List String) : IO UInt32 := do
  let files ← readTree (← (← IO.currentDir).readDir)
  let around : Surroundings Unit := ⟨.unplugged, .bare, ← readEnvironment⟩
  let (exit, after, _) := CommandLine.run around (← stamps) args files ()
  for (path, content) in files.changes after do
    writeFile path content
  IO.print exit.stdout
  IO.eprint exit.stderr
  return exit.code.toUInt32

end Crosswalk.Main

def main (args : List String) : IO UInt32 := Crosswalk.Main.run args
