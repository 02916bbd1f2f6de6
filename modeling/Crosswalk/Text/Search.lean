namespace Crosswalk.Text

def afterStart? : (start s : List Char) → Option (List Char)
  | [], s => some s
  | _ :: _, [] => none
  | a :: start, c :: s => if a = c then afterStart? start s else none

def startsWith (start s : List Char) : Bool := (afterStart? start s).isSome

def contains (piece : List Char) : List Char → Bool
  | [] => piece.isEmpty
  | c :: s => startsWith piece (c :: s) || contains piece s

/-- Replace occurrences from left to right. `skip` characters belong to an occurrence that was
already replaced. -/
def replaceFrom (piece by_ : List Char) : (skip : Nat) → List Char → List Char
  | _, [] => []
  | n + 1, _ :: s => replaceFrom piece by_ n s
  | 0, c :: s =>
    if startsWith piece (c :: s) then by_ ++ replaceFrom piece by_ (piece.length - 1) s
    else c :: replaceFrom piece by_ 0 s

def replaceAll (piece by_ s : List Char) : List Char := replaceFrom piece by_ 0 s

def splitAfterLast? (sep : Char) (s : List Char) : Option (List Char × List Char) :=
  let tail := (s.reverse.takeWhile (· != sep)).reverse
  if tail.length = s.length then none else some (s.take (s.length - tail.length), tail)

def join (sep : List Char) : List (List Char) → List Char
  | [] => []
  | [s] => s
  | s :: rest => s ++ sep ++ join sep rest

end Crosswalk.Text
