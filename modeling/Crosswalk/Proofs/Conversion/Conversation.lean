import Crosswalk.Proofs.Conversion.Hearing

namespace Crosswalk

variable {σ : Type}

theorem Verdict.tolerated_failed {v : Verdict} (h : v.tolerated.success = false) :
    v.tolerated = v := by
  obtain ⟨success, diagnostic⟩ := v
  cases diagnostic with
  | none => rfl
  | some diagnostic =>
    simp only [tolerated] at h ⊢
    split
    · next hpasses =>
      rw [if_pos hpasses] at h
      cases h
    · rfl

namespace Dialogue

theorem messages_snoc (j : Job) (attempts : List Attempt) (a : Attempt) :
    messages j (attempts ++ [a]) = messages j attempts ++ exchange a := by
  simp [messages]

theorem messages_length (j : Job) (attempts : List Attempt) :
    (messages j attempts).length = 2 * (attempts.length + 1) := by
  induction attempts using List.reverseRecOn with
  | nil => rfl
  | append_singleton attempts a ih =>
    rw [messages_snoc, List.length_append, ih, List.length_append]
    exact (Nat.mul_add 2 (attempts.length + 1) 1).symm

end Dialogue

def Ending.finished? {α : Type} : Ending α → Option α
  | .finished a => some a
  | .broken _ => none

namespace Seat

/-- The number of the attempt whose question is answered now, and the answer. -/
def answered? : Seat → Option (Nat × Except OracleFault String)
  | .asking d call => call.ending.finished?.map (d.number, ·)
  | .queued | .checking _ _ _ _ | .settled _ => none

def judged? : Seat → Option (Nat × Except OracleFault Verdict)
  | .checking d _ _ call => call.ending.finished?.map (d.number, ·)
  | .queued | .asking _ _ | .settled _ => none

def request? (terms : Terms) (j : Job) : Seat → Option Request
  | .asking d _ => some (d.request terms j)
  | .queued | .checking _ _ _ _ | .settled _ => none

end Seat

namespace Replies

/-- What is wrong with the answer of an attempt that fails: it is empty, it holds no code, or the
code is rejected or cannot be checked. -/
def diagnostic (r : Replies) (d : Direction) (n : Nat) (answer : String) : String :=
  if Text.allBlank answer.toList then "The response was empty."
  else if Candidate.ofAnswer d answer = "" then Conversion.noCode d.target
  else
    match r.verdict n with
    | .ok v => v.diagnostic.getD "the answer did not contain usable code"
    | .error fault => "Compiler oracle unavailable: " ++ fault.message

def Recalled (r : Replies) (d : Direction) (attempts : List Attempt) : Prop :=
  ∀ (i : Nat) (a : Attempt), attempts[i]? = some a →
    a.number = i + 1 ∧ r.answer (i + 1) = .ok a.answer ∧
      a.verdict.diagnostic.getD "the answer did not contain usable code"
        = r.diagnostic d (i + 1) a.answer

/-- Calls that end bring the reply to their attempt. A call that breaks down brings nothing. -/
structure Brought (r : Replies) (seat : Seat) : Prop where
  answer : ∀ n answer, seat.answered? = some (n, answer) → r.answer n = answer
  verdict : ∀ n verdict, seat.judged? = some (n, verdict) → r.verdict n = verdict

def BroughtIn (r : Replies) (services : Services σ) (terms : Terms) (j : Job) (s : Shared σ) :
    Prop :=
  ∀ seat ∈ Seat.trail services terms j (Seat.stepBound j) .queued s, r.Brought seat

/-- The requests of a file as one conversation. Each request begins with the one before it and has
two messages more: the answer of the attempt that failed, and what was wrong with it. -/
structure Converse (r : Replies) (terms : Terms) (j : Job) (requests : List Request) : Prop where
  starts : requests ≠ []
  length : ∀ (n : Nat) request, requests[n]? = some request →
    request.messages.length = 2 * (n + 1)
  opening : ∀ request ∈ requests, request.messages.take 2 = Dialogue.opening j
  options : ∀ request ∈ requests,
    request.options = .ofResolved j.options terms.modelHints terms.maxTokens
  goesOn : ∀ (n : Nat) request next, requests[n]? = some request → requests[n + 1]? = some next →
    ∃ answer, r.answer (n + 1) = .ok answer ∧
      next.messages = request.messages ++ [
        ⟨.assistant, answer, none⟩,
        ⟨.user, "Attempt " ++ toString (n + 1) ++ " failed validation:\n"
          ++ String.ofList (Text.trim (r.diagnostic j.options.direction (n + 1) answer).toList)
          ++ "\n\nFix the problem and answer with the complete corrected file only.", none⟩]

section Attempts

variable {r : Replies} {d : Direction}

theorem recalled_nil : r.Recalled d [] := by simp [Recalled]

theorem Recalled.snoc {attempts : List Attempt} (h : r.Recalled d attempts) {a : Attempt}
    (hnumber : a.number = attempts.length + 1)
    (hanswer : r.answer (attempts.length + 1) = .ok a.answer)
    (hdiagnostic : a.verdict.diagnostic.getD "the answer did not contain usable code"
      = r.diagnostic d (attempts.length + 1) a.answer) : r.Recalled d (attempts ++ [a]) :=
  forall_getElem?_concat h ⟨hnumber, hanswer, hdiagnostic⟩

theorem diagnostic_blank {answer : String} (hblank : Text.allBlank answer.toList = true) (n : Nat) :
    r.diagnostic d n answer = "The response was empty." := if_pos hblank

theorem diagnostic_noCode {answer : String} (hblank : Text.allBlank answer.toList ≠ true)
    (hempty : Candidate.ofAnswer d answer = "") (n : Nat) :
    r.diagnostic d n answer = Conversion.noCode d.target := by
  rw [diagnostic, if_neg hblank, if_pos hempty]

theorem diagnostic_judged {n : Nat} {answer : String} (hblank : Text.allBlank answer.toList ≠ true)
    (hcode : Candidate.ofAnswer d answer ≠ "") {v : Verdict}
    (hjudged : Conversion.judged (r.verdict n) = .ok v) (hfailed : v.success = false) :
    v.diagnostic.getD "the answer did not contain usable code" = r.diagnostic d n answer := by
  rw [diagnostic, if_neg hblank, if_neg hcode]
  cases hverdict : r.verdict n with
  | ok v' =>
    rw [hverdict] at hjudged
    obtain rfl : v'.tolerated = v := Except.ok.inj hjudged
    rw [Verdict.tolerated_failed hfailed]
  | error fault =>
    rw [hverdict, Conversion.judged] at hjudged
    split at hjudged
    · cases hjudged
      rfl
    · cases hjudged

end Attempts

end Replies

/-- The requests for the attempts so far: one before the first attempt, and one after each. -/
def Job.said (terms : Terms) (j : Job) (attempts : List Attempt) : List Request :=
  attempts.inits.map fun before =>
    ⟨Dialogue.messages j before, .ofResolved j.options terms.modelHints terms.maxTokens⟩

namespace Conversion

variable {r : Replies} {terms : Terms} {j : Job} {d : Draft} {asked : List Request}

/-- What has been asked so far is what the conversation needed to come to this point. -/
def Spoken (r : Replies) (terms : Terms) (j : Job) (asked : List Request) : Conversion → Prop
  | .asking d => r.Recalled j.options.direction d.attempts ∧
      asked ++ [d.request terms j] = j.said terms d.attempts
  | .checking d answer _ => r.Recalled j.options.direction d.attempts ∧
      asked = j.said terms d.attempts ∧ r.answer d.number = .ok answer ∧
      Text.allBlank answer.toList ≠ true ∧ Candidate.ofAnswer j.options.direction answer ≠ ""
  | .escaped _ _ | .ended _ => ∃ attempts, r.Recalled j.options.direction attempts ∧
      asked = j.said terms attempts

theorem failed_spoken {a : Attempt} (h : r.Recalled j.options.direction d.attempts)
    (hasked : asked = j.said terms d.attempts) (hnumber : a.number = d.number)
    (hanswer : r.answer d.number = .ok a.answer)
    (hdiagnostic : a.verdict.diagnostic.getD "the answer did not contain usable code"
      = r.diagnostic j.options.direction d.number a.answer) :
    (failed j d a).Spoken r terms j asked := by
  unfold failed
  split
  · refine ⟨h.snoc hnumber hanswer hdiagnostic, ?_⟩
    simp [hasked, Job.said, List.inits_append, Draft.request]
  · exact ⟨d.attempts, h, hasked⟩

theorem onAnswer_spoken (h : r.Recalled j.options.direction d.attempts)
    (hasked : asked = j.said terms d.attempts) :
    (onAnswer j d (r.answer d.number)).Spoken r terms j asked := by
  cases hanswer : r.answer d.number with
  | error fault =>
    simp only [onAnswer]
    split
    · exact ⟨d.attempts, h, hasked⟩
    · exact ⟨d.attempts, h, hasked⟩
  | ok answer =>
    simp only [onAnswer]
    split
    · next hblank =>
      exact failed_spoken (d := d.advance .sanitizing) h hasked rfl hanswer
        (Replies.diagnostic_blank hblank _).symm
    · next hblank =>
      split
      · next hempty =>
        exact failed_spoken (d := d.advance .sanitizing) h hasked rfl hanswer
          (Replies.diagnostic_noCode hblank hempty _).symm
      · next hcode => exact ⟨h, hasked, hanswer, hblank, hcode⟩

theorem onVerdict_spoken {answer : String} (candidate : String)
    (h : (checking d answer candidate).Spoken r terms j asked) (m : Manifest) :
    (onVerdict j d answer candidate m (r.verdict d.number)).1.Spoken r terms j asked := by
  obtain ⟨hrecalled, hasked, hanswer, hblank, hcode⟩ := h
  unfold onVerdict
  split
  · exact ⟨d.attempts, hrecalled, hasked⟩
  · next v hjudged =>
    simp only
    split
    · exact ⟨d.attempts, hrecalled, hasked⟩
    · next hsuccess =>
      exact failed_spoken hrecalled hasked rfl hanswer
        (Replies.diagnostic_judged hblank hcode hjudged (by simpa using hsuccess))

end Conversion

namespace Seat

variable {r : Replies} {terms : Terms} {j : Job}

def Spoken (r : Replies) (terms : Terms) (j : Job) (asked : List Request) : Seat → Prop
  | .queued => asked = []
  | .asking d _ => r.Recalled j.options.direction d.attempts ∧ asked = j.said terms d.attempts
  | .checking d answer candidate _ =>
    (Conversion.checking d answer candidate).Spoken r terms j asked
  | .settled _ => ∃ attempts, r.Recalled j.options.direction attempts ∧
      asked = j.said terms attempts

theorem await_spoken (services : Services σ) (s : Shared σ) {c : Conversion} {asked : List Request}
    (h : c.Spoken r terms j asked) : (await services terms j s c).1.Spoken r terms j
      (asked ++ ((await services terms j s c).1.request? terms j).toList) := by
  cases c with
  | asking d => exact h
  | checking d answer candidate | escaped d fault | ended o =>
    simp only [await, request?, Option.toList_none, List.append_nil]
    exact h

theorem step_spoken (services : Services σ) (s : Shared σ) {seat : Seat} {asked : List Request}
    (h : seat.Spoken r terms j asked) (hbrought : r.Brought seat) (hopen : seat.report? = none) :
    (seat.step services terms j s).1.Spoken r terms j
      (asked ++ ((seat.step services terms j s).1.request? terms j).toList) := by
  cases seat with
  | queued =>
    obtain rfl : asked = [] := h
    have hstart : Conversion.start.Spoken r terms j [] := ⟨Replies.recalled_nil, rfl⟩
    exact await_spoken services _ hstart
  | asking d call =>
    cases hcall : call.ending with
    | broken reason =>
      simp only [step, resume, hcall, request?, Option.toList_none, List.append_nil]
      exact ⟨d.attempts, h⟩
    | finished answer =>
      have hspoken := Conversion.onAnswer_spoken h.1 h.2
      rw [hbrought.answer d.number answer (by rw [answered?, hcall]; rfl)] at hspoken
      simp only [step, resume, hcall]
      exact await_spoken services _ hspoken
  | checking d answer candidate call =>
    cases hcall : call.ending with
    | broken reason =>
      simp only [step, resume, hcall, request?, Option.toList_none, List.append_nil]
      exact ⟨d.attempts, h.1, h.2.1⟩
    | finished verdict =>
      have hspoken := Conversion.onVerdict_spoken candidate h s.manifest
      rw [hbrought.verdict d.number verdict (by rw [judged?, hcall]; rfl)] at hspoken
      simp only [step, resume, hcall]
      exact await_spoken services _ hspoken
  | settled report => cases hopen

theorem trail_left (services : Services σ) (terms : Terms) (j : Job) (n : Nat) {seat : Seat}
    (h : seat.Fits j) (s : Shared σ) :
    (seat.left j :: (trail services terms j n seat s).map (left j)).IsChain (· > ·) := by
  induction n generalizing seat s with
  | zero => exact .singleton _
  | succ n ih =>
    cases hopen : seat.report? with
    | some r =>
      rw [report?_eq_some.1 hopen, trail_over]
      exact .singleton _
    | none =>
      obtain ⟨hfits, hleft⟩ := step_fits_left services terms j s h hopen
      rw [trail_open services terms j n hopen, List.map_cons]
      exact .cons_cons hleft (ih hfits _)

theorem trail_inj (services : Services σ) (terms : Terms) (j : Job) (n : Nat) (s : Shared σ)
    {x y : Seat} (hx : x ∈ trail services terms j n .queued s)
    (hy : y ∈ trail services terms j n .queued s) (hleft : x.left j = y.left j) : x = y := by
  have hchain := trail_left services terms j n (show Seat.queued.Fits j from trivial) s
  have hpairwise := (List.pairwise_cons.1 (List.isChain_iff_pairwise.1 hchain)).2
  exact List.inj_on_of_nodup_map (hpairwise.imp fun hlt => (Nat.ne_of_lt hlt).symm) hx hy hleft

theorem answered?_left {j : Job} {seat : Seat} {n : Nat} {answer : Except OracleFault String}
    (h : seat.answered? = some (n, answer)) :
    seat.left j = 2 * (j.options.maxAttempts + 1 - n) := by
  cases seat with
  | asking d call =>
    obtain ⟨_, -, heq⟩ := Option.map_eq_some_iff.1 h
    obtain ⟨rfl, -⟩ := Prod.mk.inj heq
    rw [Draft.number, Nat.add_sub_add_right]
    rfl
  | queued | checking d answer candidate call | settled r => cases h

theorem judged?_left {j : Job} {seat : Seat} {n : Nat} {verdict : Except OracleFault Verdict}
    (h : seat.judged? = some (n, verdict)) :
    seat.left j = 2 * (j.options.maxAttempts + 1 - n) - 1 := by
  cases seat with
  | checking d answer candidate call =>
    obtain ⟨_, -, heq⟩ := Option.map_eq_some_iff.1 h
    obtain ⟨rfl, -⟩ := Prod.mk.inj heq
    rw [Draft.number, Nat.add_sub_add_right]
    rfl
  | queued | asking d call | settled r => cases h

theorem exists_told (services : Services σ) (terms : Terms) (j : Job) (n : Nat) (s : Shared σ)
    {α : Type} (silence : α) {told? : Seat → Option (Nat × α)} {leftAt : Nat → Nat}
    (hleft : ∀ seat k a, told? seat = some (k, a) → seat.left j = leftAt k) :
    ∃ reply : Nat → α, ∀ seat ∈ trail services terms j n .queued s,
      ∀ k a, told? seat = some (k, a) → reply k = a := by
  have hreply (k : Nat) : ∃ reply, ∀ seat ∈ trail services terms j n .queued s,
      ∀ a, told? seat = some (k, a) → reply = a := by
    by_cases h : ∃ seat ∈ trail services terms j n .queued s, ∃ a, told? seat = some (k, a)
    · obtain ⟨seat, hseat, a, ha⟩ := h
      refine ⟨a, fun seat' hseat' a' ha' => ?_⟩
      obtain rfl := trail_inj services terms j n s hseat hseat'
        ((hleft seat k a ha).trans (hleft seat' k a' ha').symm)
      exact (Prod.mk.inj (Option.some.inj (ha.symm.trans ha'))).2
    · exact ⟨silence, fun seat hseat a ha => absurd ⟨seat, hseat, a, ha⟩ h⟩
  choose reply hreply using hreply
  exact ⟨reply, fun seat hseat k a ha => hreply k seat hseat a ha⟩

end Seat

namespace Job

variable {terms : Terms} {j : Job}

def requests (services : Services σ) (terms : Terms) (j : Job) (s : Shared σ) : List Request :=
  (Seat.trail services terms j (Seat.stepBound j) .queued s).filterMap (Seat.request? terms j)

theorem said_eq_some {attempts : List Attempt} {n : Nat} {request : Request} :
    (j.said terms attempts)[n]? = some request ↔ n ≤ attempts.length ∧
      request = ⟨Dialogue.messages j (attempts.take n),
        .ofResolved j.options terms.modelHints terms.maxTokens⟩ := by
  rw [said, List.getElem?_map, Option.map_eq_some_iff]
  simp only [List.getElem?_eq_some_iff, List.length_inits, List.getElem_inits, Nat.lt_succ_iff]
  constructor
  · rintro ⟨before, ⟨hn, rfl⟩, rfl⟩
    exact ⟨hn, rfl⟩
  · rintro ⟨hn, rfl⟩
    exact ⟨_, ⟨hn, rfl⟩, rfl⟩

theorem said_converse {r : Replies} {attempts : List Attempt}
    (h : r.Recalled j.options.direction attempts) :
    r.Converse terms j (j.said terms attempts) := by
  refine ⟨?_, fun n request hn => ?_, fun request hr => ?_, fun request hr => ?_,
    fun n request next hn hnext => ?_⟩
  · rw [said, Ne, List.map_eq_nil_iff]
    exact List.ne_nil_of_length_pos (by rw [List.length_inits]; exact Nat.succ_pos _)
  · obtain ⟨hle, rfl⟩ := said_eq_some.1 hn
    rw [Dialogue.messages_length, List.length_take, min_eq_left hle]
  · obtain ⟨before, -, rfl⟩ := List.mem_map.1 hr
    exact List.take_left' rfl
  · obtain ⟨before, -, rfl⟩ := List.mem_map.1 hr
    rfl
  · obtain ⟨-, rfl⟩ := said_eq_some.1 hn
    obtain ⟨hlt, rfl⟩ := said_eq_some.1 hnext
    have hlast : attempts.take (n + 1) = attempts.take n ++ [attempts[n]] :=
      (List.take_append_getElem hlt).symm
    obtain ⟨hnumber, hanswer, hdiagnostic⟩ := h n attempts[n] (List.getElem?_eq_getElem hlt)
    refine ⟨attempts[n].answer, hanswer, ?_⟩
    rw [hlast, Dialogue.messages_snoc, Dialogue.exchange, Dialogue.repairRequest, hnumber,
      hdiagnostic]

theorem exists_broughtIn (services : Services σ) (terms : Terms) (j : Job) (s : Shared σ) :
    ∃ r : Replies, r.BroughtIn services terms j s := by
  obtain ⟨answer, hanswer⟩ := Seat.exists_told services terms j (Seat.stepBound j) s (.ok "")
    fun _ _ _ => Seat.answered?_left
  obtain ⟨verdict, hverdict⟩ := Seat.exists_told services terms j (Seat.stepBound j) s (.ok .passed)
    fun _ _ _ => Seat.judged?_left
  exact ⟨⟨answer, verdict⟩, fun seat hseat => ⟨hanswer seat hseat, hverdict seat hseat⟩⟩

/-- The requests of a file, whatever the services reply, are one conversation that only grows. -/
theorem requests_converse (services : Services σ) (terms : Terms) (j : Job) (s : Shared σ) :
    (∃ r : Replies, r.BroughtIn services terms j s) ∧
      ∀ r : Replies, r.BroughtIn services terms j s →
        r.Converse terms j (j.requests services terms s) := by
  refine ⟨exists_broughtIn services terms j s, fun r hr => ?_⟩
  have htrail := Seat.trail_induct services terms j
    (P := fun past seat _ => (∀ x ∈ past, r.Brought x) → r.Brought seat ∧
      seat.Spoken r terms j (past.filterMap (Seat.request? terms j)))
    (fun past seat s h hopen hbrought => by
      obtain ⟨hseat, hspoken⟩ := h fun x hx => hbrought x (List.mem_append_left _ hx)
      refine ⟨hbrought _ (List.mem_append_right _ List.mem_cons_self), ?_⟩
      have hnext := Seat.step_spoken services s hspoken hseat hopen
      rwa [List.filterMap_append, List.filterMap_cons, List.filterMap_nil])
    (Seat.stepBound j) [] .queued s
    (fun _ => ⟨⟨by simp [Seat.answered?], by simp [Seat.judged?]⟩, rfl⟩)
  obtain ⟨-, hspoken⟩ := htrail hr
  obtain ⟨report, hreport⟩ := Seat.steps_settled services terms j
    (show Seat.queued.Fits j from trivial) (Nat.le_refl (Seat.stepBound j)) s
  rw [hreport] at hspoken
  obtain ⟨attempts, hrecalled, hasked⟩ := hspoken
  rw [List.nil_append] at hasked
  rw [requests, hasked]
  exact said_converse hrecalled

example : (Job.single.requests (.saying .wavering) {} ⟨Manifest.empty, 0⟩).map (·.messages.length)
    = [2, 4, 6] := by
  decide +kernel

end Job

end Crosswalk
