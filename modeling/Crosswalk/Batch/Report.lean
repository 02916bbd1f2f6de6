import Crosswalk.Batch.Basic
import Crosswalk.Files.Tree
import Crosswalk.Json.Writer

namespace Crosswalk

structure Stamps where
  runId : String
  startedAt : String
  finishedAt : String
  elapsed : String

/-- A name for a run, made of sixteen random bytes, six bits of which are fixed. -/
def Stamps.idOfBytes (bytes : Bytes) : String :=
  let fixed := bytes.mapIdx fun i b =>
    if i = 6 then b % 16 + 0x40 else if i = 8 then b % 64 + 0x80 else b
  let digits := fixed.flatMap fun b => [Text.hexDigit (b.toNat / 16), Text.hexDigit (b.toNat % 16)]
  let part (start count : Nat) : String := String.ofList ((digits.drop start).take count)
  "-".intercalate [part 0 8, part 8 4, part 12 4, part 16 4, part 20 12]

namespace Batch

def encode (b : Batch) (stamps : Stamps) : Value :=
  .object [
    ("run_id", .string stamps.runId),
    ("success", .bool b.success),
    ("direction", .string b.direction.name),
    ("results", .array (b.results.map Converted.encode)),
    ("errors", .array (b.errors.map Failed.encode)),
    ("manifest", b.manifest.encode),
    ("stats", b.tally.encode),
    ("started_at", .string stamps.startedAt),
    ("finished_at", .string stamps.finishedAt)]

def report (b : Batch) (stamps : Stamps) : String := Json.pretty (b.encode stamps)

end Batch

namespace Output

def reportName : String := "reforge-report.json"

structure Refusal where
  activity : Option String
  fault : SystemFault

def writeFile (path text : String) (t : Tree) : Except Refusal Tree :=
  let parent := Tree.parentPath path
  match t.makeDirs parent with
  | .error fault => .error ⟨some ("creating " ++ parent), fault⟩
  | .ok t =>
    match t.writeText path text with
    | .error fault => .error ⟨some ("writing " ++ path), fault⟩
    | .ok t => .ok t

def writeFiles : List (String × String) → Tree → Except Refusal Unit × Tree
  | [], t => (.ok (), t)
  | (path, text) :: rest, t =>
    match writeFile path text t with
    | .ok t => writeFiles rest t
    | .error refusal => (.error refusal, t)

def reportPath (directory : String) : String := Tree.joinPath directory reportName

def writeReport (directory text : String) (t : Tree) : Except Refusal Unit × Tree :=
  match t.makeDirs directory with
  | .error fault => (.error ⟨none, fault⟩, t)
  | .ok t =>
    match t.writeText (reportPath directory) text with
    | .error fault => (.error ⟨some ("writing " ++ reportPath directory), fault⟩, t)
    | .ok t => (.ok (), t)

/-- Write every result and then the report. What was written before a refusal stays. -/
def write (b : Batch) (stamps : Stamps) (directory : String) (t : Tree) :
    Except Refusal Unit × Tree :=
  match writeFiles (b.results.map fun r => (Tree.joinPath directory r.outputPath, r.content)) t with
  | (.error refusal, t) => (.error refusal, t)
  | (.ok (), t) => writeReport directory (b.report stamps) t

end Output

end Crosswalk
