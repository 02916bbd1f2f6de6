import Crosswalk.Fault
import Crosswalk.Http.Address
import Crosswalk.Text.Marked
import Crosswalk.Work

namespace Crosswalk.Http

structure Post where
  address : Address
  /-- Names in small letters. A name may come more than once. -/
  headers : List (String × String)
  body : String
deriving DecidableEq, Repr

namespace Post

def nameMarks : List Char := "!#$%&'*+-.^_\x60|~".toList

def isName (s : String) : Bool :=
  s != "" && s.toList.all fun c => c.isAlphanum || nameMarks.contains c

def isFieldText (s : String) : Bool := s.toList.all fun c => !Address.isControl c || c == '\t'

def make? (url : String) (headers : List (String × String)) (body : String) : Option Post := do
  let address ← Address.parse? url
  if headers.all fun h => isName h.1 && isFieldText h.2 then
    some ⟨address, headers.map fun h => (Text.asciiLowerText h.1, h.2), body⟩
  else none

end Post

/-- How a body comes to its end: as it was announced, before that, or not within the time for the
request. -/
inductive BodyEnd where
  | whole
  | brokenOff
  | late
deriving DecidableEq, Repr

structure Response where
  status : Nat
  pieces : List Bytes
  bodyEnd : BodyEnd := .whole
deriving DecidableEq, Repr

namespace Response

def whole (r : Response) : Bool := r.bodyEnd == .whole

def fault? (r : Response) (seconds : Nat) : Option OracleFault :=
  match r.bodyEnd with
  | .whole => none
  | .brokenOff => some (.unreachable "request or response body error")
  | .late => some (.timeout seconds)

def isSuccess (r : Response) : Bool := 200 ≤ r.status && r.status < 300

def isServerError (r : Response) : Bool := 500 ≤ r.status && r.status < 600

def bytes (r : Response) : Bytes := r.pieces.flatten

def text (r : Response) : String := if r.whole then Text.ofMarkedBytes r.bytes else ""

def text? (r : Response) : Option String := if r.whole then Text.ofBytes? r.bytes else none

end Response

def serverErrors : List (Nat × String) :=
  [(500, "Internal Server Error"), (501, "Not Implemented"), (502, "Bad Gateway"),
    (503, "Service Unavailable"), (504, "Gateway Timeout"), (505, "HTTP Version Not Supported"),
    (506, "Variant Also Negotiates"), (507, "Insufficient Storage"), (508, "Loop Detected"),
    (510, "Not Extended"), (511, "Network Authentication Required")]

def serverError (status : Nat) : String :=
  toString status ++ " " ++ (serverErrors.lookup status).getD "<unknown status code>"

/-- What carries posts. No response comes back from a server that is not there or hangs up. -/
abbrev Wire (σ : Type) := Post → Work σ (Option Response)

namespace Wire

variable {σ : Type}

def unplugged : Wire σ := fun _ => .done none

def unwritable : OracleFault := .unreachable "builder error"

def unanswered : OracleFault := .unreachable "error sending request"

/-- Post a body and wait for the response, for so many seconds. Without any time nothing is
sent. -/
def post (wire : Wire σ) (seconds : Nat) (url : String) (headers : List (String × String))
    (body : String) : Work σ (Except OracleFault Response) :=
  match Post.make? url headers body with
  | none => .done (.error unwritable)
  | some p =>
    if seconds = 0 then .done (.error (.timeout 0))
    else
      ((wire p).bind fun
        | some response => .done (.ok response)
        | none => .done (.error unanswered)).within (1000 * seconds) (.error (.timeout seconds))

end Wire

end Crosswalk.Http
