import Crosswalk.Digest.Blake3
import Crosswalk.Language
import Crosswalk.Text.Search

namespace Crosswalk

structure Source where
  path : String
  language : Language
  content : String
deriving DecidableEq

namespace Source

def ofPath (path content : String) : Source := ⟨path, .ofPath path, content⟩

def digest (s : Source) : String := Digest.blake3Hex (Text.toBytes s.content)

/-- The path without the last ending of its file name. A name that only starts with a dot has no
ending. -/
def stem (path : String) : String :=
  let name := (path.toList.reverse.takeWhile (· != '/')).reverse
  match Text.splitAfterLast? '.' name with
  | some (upToDot, ending) =>
    if upToDot.length ≤ 1 then path
    else String.ofList (path.toList.take (path.toList.length - ending.length - 1))
  | none => path

def outputPath (s : Source) (d : Direction) : String := stem s.path ++ "." ++ d.target.fileSuffix

end Source

end Crosswalk
