import Crosswalk.Oracle.Chat
import Crosswalk.Proofs.Text.Trim

namespace Crosswalk

namespace Text

theorem leadByte?_low {b owed low high bits : Nat}
    (h : leadByte? b = some (owed, low, high, bits)) : 0x80 ≤ low := by
  unfold leadByte? at h
  split_ifs at h <;> cases h <;> decide

theorem decodeStart_newline : decodeFrom.start 10 [] = [some '\n'] := by
  have hlead : leadByte? (10 : UInt8).toNat = some (0, 0x80, 0xBF, 10) := by decide
  rw [decodeFrom.start, hlead, decodeFrom]
  rfl

theorem decodeFrom_newline (s : Bytes) {p : Option Partial} (hp : ∀ q ∈ p, 0x80 ≤ q.low) :
    decodeFrom p (s ++ [10]) = decodeFrom p s ++ [some '\n'] := by
  induction s generalizing p with
  | nil =>
    cases p with
    | none => simp only [List.nil_append, decodeFrom, decodeStart_newline]
    | some q =>
      have hout : ¬(q.low ≤ (10 : UInt8).toNat ∧ (10 : UInt8).toNat ≤ q.high) :=
        fun h => absurd ((hp q rfl).trans h.1) (by decide)
      simp only [List.nil_append, decodeFrom, if_neg hout, decodeStart_newline,
        List.singleton_append]
  | cons b s ih =>
    have hstart : decodeFrom.start b (s ++ [10]) = decodeFrom.start b s ++ [some '\n'] := by
      rw [decodeFrom.start, decodeFrom.start]
      split
      case h_1 => rw [ih (by simp), List.cons_append]
      case h_2 => rw [ih (by simp), List.cons_append]
      case h_3 hlead =>
        refine ih fun q hq => ?_
        cases hq
        exact leadByte?_low hlead
    cases p with
    | none => rw [List.cons_append, decodeFrom, decodeFrom, hstart]
    | some q =>
      simp only [List.cons_append, decodeFrom]
      split_ifs
      · rw [ih (by simp), List.cons_append]
      · exact ih fun q hq => by cases hq; exact le_refl _
      · rw [hstart, List.cons_append]

theorem ofBytesLossy_newline (s : Bytes) :
    (ofBytesLossy (s ++ [10])).toList = (ofBytesLossy s).toList ++ ['\n'] := by
  have hdecode : decode (s ++ [10]) = decode s ++ [some '\n'] := decodeFrom_newline s (by simp)
  simp [ofBytesLossy, hdecode]

end Text

namespace EventStream

/-- The answer that events come to: the tokens up to the end marker. A fault before it is the fault
of the whole, and so is it that there is no end marker. -/
def joined : List Event → Except OracleFault String
  | [] => .error (.malformed "stream closed without an end marker")
  | .error fault :: _ => .error fault
  | .ok .finish :: _ => .ok ""
  | .ok (.token text) :: rest => (joined rest).map (text ++ ·)

theorem collectAfter_map_done {σ : Type} (collected : String) (events : List Event) :
    TokenStream.collectAfter collected (events.map Work.done)
      = (.done ((joined events).map (collected ++ ·)) : Work σ _) := by
  induction events generalizing collected with
  | nil => rfl
  | cons event rest ih =>
    rcases event with fault | text | -
    · rfl
    · refine (ih (collected ++ text)).trans (congrArg Work.done ?_)
      rw [joined]
      cases joined rest with
      | error fault => rfl
      | ok joined => exact congrArg Except.ok String.append_assoc
    · exact congrArg (Work.done ∘ Except.ok) String.append_empty.symm

theorem collect_map_done {σ : Type} (events : List Event) :
    TokenStream.collect (events.map Work.done) = (.done (joined events) : Work σ _) := by
  rw [TokenStream.collect, collectAfter_map_done]
  cases joined events with
  | error fault => rfl
  | ok joined => exact congrArg (Work.done ∘ Except.ok) String.empty_append

def tokens (texts : List String) : List Event := texts.map (.ok ∘ .token)

theorem joined_tokens_append (texts : List String) (events : List Event) :
    joined (tokens texts ++ events) = (joined events).map (String.join texts ++ ·) := by
  induction texts with
  | nil =>
    have hnil : tokens [] = [] := rfl
    rw [hnil, List.nil_append]
    cases joined events <;> simp [Except.map]
  | cons text texts ih =>
    have hcons : tokens (text :: texts) = .ok (.token text) :: tokens texts := rfl
    rw [hcons, List.cons_append, joined, ih]
    cases joined events <;> simp [Except.map, String.append_assoc]

variable {complaint : Complaint}

def event? (complaint : Complaint) (line : Bytes) : Option Event :=
  match readLine complaint (Text.ofBytesLossy line).toList with
  | .ok event => event.map .ok
  | .error fault => some (.error fault)

/-- The events of a body, line by line, and the fault that breaks it off. What comes after the last
newline is a line only if the body is whole. -/
def wholeEvents (complaint : Complaint) (broken : Option OracleFault) (body : Bytes) : List Event :=
  match broken with
  | none => (body.splitOn newline).filterMap (event? complaint)
  | some fault => (body.splitOn newline).dropLast.filterMap (event? complaint) ++ [.error fault]

def assembled (complaint : Complaint) (broken : Option OracleFault) (body : Bytes) :
    Except OracleFault String :=
  joined (wholeEvents complaint broken body)

theorem readLine_newline (line : Bytes) :
    readLine complaint (Text.ofBytesLossy (line ++ [newline])).toList
      = readLine complaint (Text.ofBytesLossy line).toList := by
  unfold readLine
  rw [newline, Text.ofBytesLossy_newline, Text.trim_append_blank _ (by decide)]

theorem wholeEvents_line (broken : Option OracleFault) {line : Bytes} (hline : newline ∉ line)
    (rest : Bytes) :
    wholeEvents complaint broken (line ++ newline :: rest)
      = (event? complaint line).toList ++ wholeEvents complaint broken rest := by
  have hsplit : (line ++ newline :: rest).splitOn newline = line :: rest.splitOn newline :=
    List.splitOnP_append_cons_of_forall_mem
      (fun b hb => beq_false_of_ne fun (h : b = newline) => hline (h ▸ hb)) newline
      (beq_self_eq_true newline) rest
  have hfilter (lines : List Bytes) :
      (line :: lines).filterMap (event? complaint)
        = (event? complaint line).toList ++ lines.filterMap (event? complaint) := by
    rw [List.filterMap_cons]
    cases event? complaint line <;> rfl
  cases broken with
  | none => rw [wholeEvents, hsplit, hfilter]; rfl
  | some fault =>
    have hne : rest.splitOn newline ≠ [] := List.splitOnP_ne_nil _ _
    rw [wholeEvents, hsplit, List.dropLast_cons_of_ne_nil hne, hfilter, List.append_assoc]; rfl

theorem wholeEvents_last (broken : Option OracleFault) {line : Bytes} (hline : newline ∉ line) :
    wholeEvents complaint broken line = match broken with
      | none => (event? complaint line).toList
      | some fault => [.error fault] := by
  have hsplit : line.splitOn newline = [line] :=
    List.splitOnP_eq_singleton fun b hb =>
      beq_false_of_ne fun (h : b = newline) => hline (h ▸ hb)
  cases broken with
  | none => rw [wholeEvents, hsplit, List.filterMap_cons]; cases event? complaint line <;> rfl
  | some fault => rw [wholeEvents, hsplit]; rfl

theorem cutLine?_line {line : Bytes} (hline : newline ∉ line) (rest : Bytes) :
    cutLine? (line ++ newline :: rest) = some (line ++ [newline], rest) := by
  induction line with
  | nil => rw [List.nil_append, cutLine?, if_pos rfl, List.nil_append]
  | cons b line ih =>
    have hb : b ≠ newline := fun h => hline (h ▸ List.mem_cons_self)
    rw [List.cons_append, cutLine?, if_neg hb, ih fun h => hline (List.mem_cons_of_mem b h)]
    rfl

theorem not_mem_of_cutLine? {s : Bytes} (h : cutLine? s = none) : newline ∉ s := by
  induction s with
  | nil => exact List.not_mem_nil
  | cons b s ih =>
    rw [cutLine?] at h
    split at h
    case isTrue => cases h
    case isFalse hb => simp [Ne.symm hb, ih (Option.map_eq_none_iff.1 h)]

theorem wholeEvents_cut {s line rest : Bytes} (h : cutLine? s = some (line, rest))
    (broken : Option OracleFault) (more : Bytes) :
    wholeEvents complaint broken (s ++ more)
      = (event? complaint line).toList ++ wholeEvents complaint broken (rest ++ more) := by
  obtain ⟨start, hstart, rfl, rfl⟩ := eq_of_cutLine? h
  rw [List.append_assoc, List.cons_append, wholeEvents_line broken hstart, event?, event?,
    readLine_newline]

namespace Reading

theorem drain_ended {r : Reading} (hr : r.ended = true) : r.drain complaint = (r, none) := by
  rw [drain, if_pos hr]

theorem drain_open {r : Reading} (hr : r.ended = false) (hcut : cutLine? r.buffer = none) :
    r.drain complaint = (r, none) := by
  rw [drain, if_neg (by simp [hr])]
  split
  case h_1 => rfl
  case h_2 hsome => rw [hcut] at hsome; cases hsome

theorem drain_cut {r : Reading} (hr : r.ended = false) {line rest : Bytes}
    (hcut : cutLine? r.buffer = some (line, rest)) :
    r.drain complaint = match readLine complaint (Text.ofBytesLossy line).toList with
      | .error fault => ({ r with buffer := rest }, some fault)
      | .ok none => drain complaint { r with buffer := rest }
      | .ok (some event) => drain complaint ⟨rest, r.pending ++ [event], event == .finish⟩ := by
  rw [drain, if_neg (by simp [hr])]
  split
  case h_1 hnone => rw [hcut] at hnone; cases hnone
  case h_2 hsome =>
    obtain ⟨rfl, rfl⟩ := Prod.mk.inj (Option.some.inj (hcut.symm.trans hsome))
    rfl

/-- What reading the lines of a buffer comes to, whatever comes after it: tokens and the beginning
of a line, tokens and the end marker, or a bad line, with tokens that are not asked for any more. -/
inductive Drained (complaint : Complaint) (r : Reading) : Reading × Option OracleFault → Prop where
  | going (texts : List String) (line : Bytes) (hline : newline ∉ line)
      (h : ∀ broken more, wholeEvents complaint broken (r.buffer ++ more)
        = tokens texts ++ wholeEvents complaint broken (line ++ more)) :
      Drained complaint r (⟨line, r.pending ++ texts.map .token, false⟩, none)
  | finished (texts : List String) (rest : Bytes)
      (h : ∀ broken more, ∃ later, wholeEvents complaint broken (r.buffer ++ more)
        = tokens texts ++ .ok .finish :: later) :
      Drained complaint r (⟨rest, r.pending ++ texts.map .token ++ [.finish], true⟩, none)
  | bad (texts : List String) (r' : Reading) (fault : OracleFault)
      (h : ∀ broken more, ∃ later, wholeEvents complaint broken (r.buffer ++ more)
        = tokens texts ++ .error fault :: later) :
      Drained complaint r (r', some fault)

theorem Drained.after {r r' : Reading} {result : Reading × Option OracleFault}
    (hdrained : r'.Drained complaint result) (texts : List String)
    (hpending : r'.pending = r.pending ++ texts.map .token)
    (h : ∀ broken more, wholeEvents complaint broken (r.buffer ++ more)
      = tokens texts ++ wholeEvents complaint broken (r'.buffer ++ more)) :
    r.Drained complaint result := by
  have htokens (late : List String) (events : List Event) :
      tokens texts ++ (tokens late ++ events) = tokens (texts ++ late) ++ events := by
    rw [tokens, tokens, tokens, List.map_append, List.append_assoc]
  cases hdrained with
  | going late line hline hrest =>
    have hgoing := Drained.going (texts ++ late) line hline fun broken more => by
      rw [h, hrest, htokens]
    rwa [List.map_append, ← List.append_assoc, ← hpending] at hgoing
  | finished late rest hrest =>
    have hfinished := Drained.finished (texts ++ late) rest fun broken more => by
      obtain ⟨later, hlater⟩ := hrest broken more
      exact ⟨later, by rw [h, hlater, htokens]⟩
    rwa [List.map_append, ← List.append_assoc, ← hpending] at hfinished
  | bad late r'' fault hrest =>
    refine .bad (texts ++ late) r'' fault fun broken more => ?_
    obtain ⟨later, hlater⟩ := hrest broken more
    exact ⟨later, by rw [h, hlater, htokens]⟩

theorem drained (r : Reading) (hr : r.ended = false) : r.Drained complaint (r.drain complaint) := by
  induction r using drain.induct complaint with
  | case1 r hended => rw [hr] at hended; cases hended
  | case2 r hended hcut =>
    rw [drain_open hr hcut]
    obtain ⟨buffer, pending, ended⟩ := r
    cases hr
    simpa using Drained.going (r := ⟨buffer, pending, false⟩) [] buffer (not_mem_of_cutLine? hcut)
      fun _ _ => rfl
  | case3 r hended line rest hcut hlt fault hline =>
    have hevent : event? complaint line = some (.error fault) := by rw [event?, hline]
    rw [drain_cut hr hcut, hline]
    refine .bad [] _ fault fun broken more => ⟨wholeEvents complaint broken (rest ++ more), ?_⟩
    rw [wholeEvents_cut hcut, hevent]
    rfl
  | case4 r hended line rest hcut hlt hline ih =>
    have hevent : event? complaint line = none := by rw [event?, hline]; rfl
    rw [drain_cut hr hcut, hline]
    refine (ih hr).after [] (List.append_nil _).symm fun broken more => ?_
    rw [wholeEvents_cut hcut, hevent]
    rfl
  | case5 r hended line rest hcut hlt event hline ih =>
    have hevent : event? complaint line = some (.ok event) := by rw [event?, hline]; rfl
    rw [drain_cut hr hcut, hline]
    cases event with
    | finish =>
      change r.Drained complaint (drain complaint ⟨rest, r.pending ++ [.finish], true⟩)
      rw [drain_ended rfl]
      have hfinished := Drained.finished (r := r) [] rest fun broken more => by
        rw [wholeEvents_cut hcut, hevent]
        exact ⟨_, rfl⟩
      simpa using hfinished
    | token text =>
      refine (ih rfl).after [text] rfl fun broken more => ?_
      rw [wholeEvents_cut hcut, hevent]
      rfl

theorem drain_last {line : Bytes} (hline : newline ∉ line) :
    drain complaint ⟨line ++ [newline], [], false⟩
      = match readLine complaint (Text.ofBytesLossy line).toList with
      | .error fault => (⟨[], [], false⟩, some fault)
      | .ok none => (⟨[], [], false⟩, none)
      | .ok (some event) => (⟨[], [event], event == .finish⟩, none) := by
  rw [drain_cut rfl (cutLine?_line hline []), readLine_newline]
  cases readLine complaint (Text.ofBytesLossy line).toList with
  | error fault => rfl
  | ok event? =>
    rcases event? with - | - | -
    · exact drain_open rfl rfl
    · exact drain_open rfl rfl
    · exact drain_ended rfl

theorem events_tokens (broken : Option OracleFault) (buffer : Bytes) (texts : List String)
    (pending : List StreamEvent) (ended : Bool) (pieces : List Bytes) :
    events complaint broken ⟨buffer, texts.map .token ++ pending, ended⟩ pieces
      = tokens texts ++ events complaint broken ⟨buffer, pending, ended⟩ pieces := by
  induction texts with
  | nil => rfl
  | cons text texts ih =>
    rw [List.map_cons, List.cons_append, events, ih]
    rfl

theorem events_ended (broken : Option OracleFault) (buffer : Bytes) (pieces : List Bytes) :
    events complaint broken ⟨buffer, [], true⟩ pieces = [] := by rw [events]

/-- The stream is over with the first event that is not a token, and it comes to what the whole
comes to. -/
structure Follows (events whole : List Event) : Prop where
  joined : joined events = joined whole
  stops : events.Pairwise fun event _ => ∃ text, event = .ok (.token text)

theorem Follows.tokens_append {events whole : List Event} (h : Follows events whole)
    (texts : List String) : Follows (tokens texts ++ events) (tokens texts ++ whole) := by
  refine ⟨by rw [joined_tokens_append, joined_tokens_append, h.joined], ?_⟩
  have htokens : ∀ event ∈ tokens texts, ∃ text, event = .ok (.token text) := by
    simp [tokens]
  exact List.pairwise_append.2
    ⟨List.pairwise_of_forall_mem_list fun event hevent _ _ => htokens event hevent, h.stops,
      fun event hevent _ _ => htokens event hevent⟩

theorem Follows.single (event : Event) (later : List Event)
    (h : ∀ text, event ≠ .ok (.token text)) : Follows [event] (event :: later) := by
  refine ⟨?_, List.pairwise_singleton _ _⟩
  rcases event with fault | text | -
  · rfl
  · exact absurd rfl (h text)
  · rfl

theorem events_follow (broken : Option OracleFault) (pieces : List Bytes) {line : Bytes}
    (hline : newline ∉ line) :
    Follows (events complaint broken ⟨line, [], false⟩ pieces)
      (wholeEvents complaint broken (line ++ pieces.flatten)) := by
  -- Between two pieces nothing is pending, and the buffer holds the beginning of one line.
  induction pieces generalizing line with
  | nil =>
    rw [List.flatten_nil, List.append_nil, wholeEvents_last broken hline]
    cases broken with
    | some fault =>
      rw [events, events_ended]
      exact .single _ _ (by simp)
    | none =>
      rw [events, drain_last hline, event?]
      rcases readLine complaint (Text.ofBytesLossy line).toList with fault | - | event
      · simp only [events_ended]
        exact .single _ _ (by simp)
      · simp only [events_ended]
        exact ⟨rfl, List.Pairwise.nil⟩
      · simp only
        rw [events, events_ended]
        exact ⟨rfl, List.pairwise_singleton _ _⟩
  | cons piece pieces ih =>
    rw [List.flatten_cons, ← List.append_assoc, events]
    have hdrained : Drained complaint ⟨line ++ piece, [], false⟩ _ := drained _ rfl
    generalize drain complaint ⟨line ++ piece, [], false⟩ = result at hdrained ⊢
    cases hdrained with
    | going texts rest hrest h =>
      have hfollows := (ih hrest).tokens_append texts
      rw [← h, ← events_tokens, List.append_nil] at hfollows
      exact hfollows
    | finished texts rest h =>
      obtain ⟨later, hlater⟩ := h broken pieces.flatten
      simp only at hlater ⊢
      rw [hlater, List.nil_append, events_tokens, events, events_ended]
      exact (Follows.single _ later (by simp)).tokens_append texts
    | bad texts r fault h =>
      -- The tokens that came in the same piece are lost, but the fault is the answer anyway.
      obtain ⟨later, hlater⟩ := h broken pieces.flatten
      simp only at hlater ⊢
      rw [hlater, events_ended]
      refine ⟨?_, List.pairwise_singleton _ _⟩
      rw [joined_tokens_append]
      rfl

end Reading

theorem ofPieces_follow (pieces : List Bytes) (broken : Option OracleFault) :
    Reading.Follows (ofPieces complaint pieces broken)
      (wholeEvents complaint broken pieces.flatten) :=
  Reading.events_follow broken pieces List.not_mem_nil

end EventStream

theorem Work.bind_bind {σ α β γ : Type} (w : Work σ α) (f : α → Work σ β) (g : β → Work σ γ) :
    (w.bind f).bind g = w.bind fun a => (f a).bind g := by
  induction w with
  | done a => rfl
  | broken reason => rfl
  | never => rfl
  | wait ms rest ih => exact congrArg (Work.wait ms) ih
  | look next ih => exact congrArg Work.look (funext ih)
  | change world rest ih => exact congrArg (Work.change world) ih

theorem Client.answer_remote {σ : Type} (oracle : Oracle σ) (request : Request) :
    (Client.remote oracle).answer true request = (oracle.openStream request).bind fun
      | .ok stream => stream.collect
      | .error fault => .done (.error fault) := rfl

namespace ChatService

open EventStream

variable {σ : Type}

/-- A streamed answer does not depend on how its bytes arrive: what is collected is read off the
whole body, also where the body breaks off, and nothing comes after the end marker or a fault. What is
said of a bad line is left to the reader of the lines. -/
structure Assembles (s : ChatService) (wire : Http.Wire σ) (request : Request) : Prop where
  opened : (s.oracle wire).openStream request
    = (s.send wire true request).bind fun response? => .done (response?.map fun response =>
        (ofPieces s.complaint response.pieces (response.fault? s.limit)).map .done)
  collected : ∀ pieces broken,
    TokenStream.collect ((ofPieces s.complaint pieces broken).map Work.done)
      = (.done (assembled s.complaint broken pieces.flatten) : Work σ _)
  stops : ∀ pieces broken,
    (ofPieces s.complaint pieces broken).Pairwise fun event _ => ∃ text, event = .ok (.token text)
  answered : (Client.remote (s.oracle wire)).answer true request
    = (s.send wire true request).bind fun response? => .done (response?.bind fun response =>
        assembled s.complaint (response.fault? s.limit) response.bytes)

theorem oracle_assembles (s : ChatService) (wire : Http.Wire σ) (request : Request) :
    s.Assembles wire request := by
  have hcollected (pieces : List Bytes) (broken : Option OracleFault) :
      TokenStream.collect ((ofPieces s.complaint pieces broken).map Work.done)
        = (.done (assembled s.complaint broken pieces.flatten) : Work σ _) := by
    rw [collect_map_done, (ofPieces_follow pieces broken).joined, assembled]
  have hopened : (s.oracle wire).openStream request
      = (s.send wire true request).bind fun response? => .done (response?.map fun response =>
          (ofPieces s.complaint response.pieces (response.fault? s.limit)).map .done) := by
    simp only [oracle]
    refine congrArg (s.send wire true request).bind (funext fun response? => ?_)
    cases response? <;> rfl
  refine ⟨hopened, hcollected, fun pieces broken => (ofPieces_follow pieces broken).stops, ?_⟩
  rw [Client.answer_remote, hopened, Work.bind_bind]
  refine congrArg (s.send wire true request).bind (funext fun response? => ?_)
  cases response? with
  | error fault => rfl
  | ok response => exact hcollected response.pieces (response.fault? s.limit)

end ChatService

end Crosswalk
