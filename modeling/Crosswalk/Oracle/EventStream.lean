import Crosswalk.Data.Decode
import Crosswalk.Json.Reader
import Crosswalk.Oracle.Basic
import Crosswalk.Text.Search
import Crosswalk.Text.Utf8

namespace Crosswalk.EventStream

abbrev Event := Except OracleFault StreamEvent

open Decode

def decodeDelta? (v : Value) : Option (Option String) := do
  let fs ← fields? ["content"] v
  defaulted fs "content" none (optional? string?)

def decodeChoice? (v : Value) : Option (Option String) := do
  let fs ← fields? ["delta"] v
  defaulted fs "delta" none decodeDelta?

def decodePieces? (v : Value) : Option (List String) := do
  let fs ← fields? ["choices"] v
  let choices ← defaulted fs "choices" [] (list? decodeChoice?)
  some (choices.filterMap id)

def endMarker : List Char := "[DONE]".toList

/-- What a JSON reader says about the data of a line that is no chunk. The words are those of a
library, and differ from line to line. -/
abbrev Complaint := List Char → String

def Complaint.fault (complaint : Complaint) (data : List Char) : OracleFault :=
  .malformed ("bad stream chunk: " ++ complaint data)

def readLine (complaint : Complaint) (line : List Char) :
    Except OracleFault (Option StreamEvent) :=
  match Text.afterStart? "data:".toList (Text.trim line) with
  | none => .ok none
  | some data =>
    let data := Text.trim data
    if data = endMarker then .ok (some .finish)
    else if data.isEmpty then .ok none
    else
      match (Json.parse? (String.ofList data)).bind decodePieces? with
      | none => .error (complaint.fault data)
      | some pieces =>
        let token := String.join pieces
        .ok (if token = "" then none else some (.token token))

def newline : UInt8 := 10

def cutLine? : Bytes → Option (Bytes × Bytes)
  | [] => none
  | b :: s =>
    if b = newline then some ([b], s)
    else (cutLine? s).map fun (line, rest) => (b :: line, rest)

theorem eq_of_cutLine? {s line rest : Bytes} (h : cutLine? s = some (line, rest)) :
    ∃ start, newline ∉ start ∧ line = start ++ [newline] ∧ s = start ++ newline :: rest := by
  induction s generalizing line with
  | nil => cases h
  | cons b s ih =>
    rw [cutLine?] at h
    split at h
    case isTrue hb =>
      cases h
      exact ⟨[], List.not_mem_nil, by rw [hb]; rfl, by rw [hb]; rfl⟩
    case isFalse hb =>
      obtain ⟨⟨line, rest⟩, hcut, heq⟩ := Option.map_eq_some_iff.1 h
      cases heq
      obtain ⟨start, hstart, rfl, rfl⟩ := ih hcut
      exact ⟨b :: start, by simp [hstart, Ne.symm hb], rfl, rfl⟩

/-- The bytes that are no line yet, and the events that were read but not asked for. -/
structure Reading where
  buffer : Bytes := []
  pending : List StreamEvent := []
  ended : Bool := false

namespace Reading

/-- Read the lines of the buffer that have an end. The end marker stops the reading, and so does a
bad line, whose fault is returned. -/
def drain (complaint : Complaint) (r : Reading) : Reading × Option OracleFault :=
  if r.ended then (r, none)
  else
    match h : cutLine? r.buffer with
    | none => (r, none)
    | some (line, rest) =>
      have : rest.length < r.buffer.length := by
        obtain ⟨start, -, -, hbuffer⟩ := eq_of_cutLine? h
        simp only [hbuffer, List.length_append, List.length_cons]
        omega
      match readLine complaint (Text.ofBytesLossy line).toList with
      | .error fault => ({ r with buffer := rest }, some fault)
      | .ok none => drain complaint { r with buffer := rest }
      | .ok (some event) => drain complaint ⟨rest, r.pending ++ [event], event == .finish⟩
termination_by r.buffer.length

/-- The events that the rest of a body brings, the pending ones first. The body breaks off with a
fault, or it ends and its last line needs no newline. -/
def events (complaint : Complaint) (broken : Option OracleFault) : Reading → List Bytes → List Event
  | ⟨buffer, event :: pending, ended⟩, pieces =>
    .ok event :: events complaint broken ⟨buffer, pending, ended⟩ pieces
  | ⟨_, [], true⟩, _ => []
  | ⟨buffer, [], false⟩, piece :: pieces =>
    match drain complaint ⟨buffer ++ piece, [], false⟩ with
    | (r, none) => events complaint broken r pieces
    | (r, some fault) => .error fault :: events complaint broken ⟨r.buffer, [], true⟩ pieces
  | ⟨buffer, [], false⟩, [] =>
    match broken with
    | some fault => .error fault :: events complaint broken ⟨buffer, [], true⟩ []
    | none =>
      match drain complaint ⟨buffer ++ [newline], [], false⟩ with
      | (r, none) => events complaint broken { r with ended := true } []
      | (r, some fault) => .error fault :: events complaint broken { r with ended := true } []
termination_by r pieces => (pieces.length, (!r.ended).toNat, r.pending.length)

end Reading

def ofPieces (complaint : Complaint) (pieces : List Bytes) (broken : Option OracleFault) :
    List Event :=
  Reading.events complaint broken {} pieces

end Crosswalk.EventStream
