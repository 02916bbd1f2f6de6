namespace Crosswalk

inductive OracleFault where
  | unreachable (detail : String)
  | timeout (seconds : Nat)
  | rejected (status : Nat) (body : String)
  | malformed (detail : String)
deriving DecidableEq, Repr

namespace OracleFault

/-- Transport faults say nothing about the question, so a caller can recover from them. -/
def isTransport : OracleFault → Bool
  | .unreachable _ | .timeout _ => true
  | .rejected _ _ | .malformed _ => false

def message : OracleFault → String
  | .unreachable detail => "Oracle unreachable: " ++ detail
  | .timeout seconds => "Oracle timed out after " ++ toString seconds ++ "s"
  | .rejected status body =>
    "Oracle rejected the request (" ++ toString status ++ "): " ++ body
  | .malformed detail => "Malformed oracle response: " ++ detail

end OracleFault

inductive SystemFault where
  | notFound
  | permissionDenied
  | exists
  | notDirectory
  | isDirectory
  | invalidText
deriving DecidableEq, Repr

def SystemFault.message : SystemFault → String
  | .notFound => "No such file or directory (os error 2)"
  | .permissionDenied => "Permission denied (os error 13)"
  | .exists => "File exists (os error 17)"
  | .notDirectory => "Not a directory (os error 20)"
  | .isDirectory => "Is a directory (os error 21)"
  | .invalidText => "stream did not contain valid UTF-8"

inductive RunFault where
  | oracle (fault : OracleFault)
  | configuration (detail : String)
  | invalidOptions (detail : String)
  | taskFailed (path reason : String)
  | undecodable
  | unusableFile (path : String)
  | unwritable
  | system (fault : SystemFault)
  | during (activity : String) (cause : RunFault)
deriving DecidableEq, Repr

def RunFault.message : RunFault → String
  | .oracle fault => "Oracle error: " ++ fault.message
  | .configuration detail => "Configuration error: " ++ detail
  | .invalidOptions detail => "Invalid options: " ++ detail
  | .taskFailed path reason => "Task for " ++ path ++ " failed: " ++ reason
  | .undecodable => "Serialization error: unexpected shape"
  | .unusableFile path => "Configuration error: " ++ path ++ ": not a usable settings file"
  | .unwritable => "Configuration error: integer out of range"
  | .system fault => "IO error: " ++ fault.message
  | .during activity cause => activity ++ ": " ++ cause.message

end Crosswalk
