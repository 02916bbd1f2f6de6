import Crosswalk.Proofs.Conversion.Replies

namespace Crosswalk

variable {σ : Type}

namespace Conversion

theorem bestCandidate_snoc (attempts : List Attempt) (a : Attempt) :
    bestCandidate (attempts ++ [a])
      = if a.candidate = "" then bestCandidate attempts else a.candidate := by
  by_cases h : a.candidate = "" <;> simp [bestCandidate, h]

end Conversion

/-- The attempts are the first ones, they all failed, and there is room for another one. -/
structure Replies.SoFar (r : Replies) (j : Job) (attempts : List Attempt) : Prop where
  room : attempts.length < j.options.maxAttempts
  fails : r.FailsBefore j.options.direction (attempts.length + 1)
  records : r.Records j.options.direction (List.replicate attempts.length false) attempts
  latest : Conversion.bestCandidate attempts = r.latest j.options.direction attempts.length

namespace Conversion

variable {r : Replies} {j : Job} {d : Draft}

def Answered (r : Replies) (j : Job) : Conversion → Prop
  | .asking d => r.SoFar j d.attempts
  | .checking d answer candidate => r.SoFar j d.attempts ∧ r.answer d.number = .ok answer ∧
      candidate = r.candidate j.options.direction d.number ∧ candidate ≠ ""
  | .escaped d fault => d.number ≤ j.options.maxAttempts ∧ r.Yields j d.number (.escaped fault)
  | .ended o => 1 ≤ o.result.attempts ∧ o.result.attempts ≤ j.options.maxAttempts ∧
      r.Yields j o.result.attempts (.converted o)

def heard : Conversion → Nat
  | .asking d => d.attempts.length
  | .checking d _ _ | .escaped d _ => d.number
  | .ended o => o.result.attempts

/-- In how many attempts nothing is left to check. -/
def judgedUpTo : Conversion → Nat
  | .asking d | .checking d _ _ => d.attempts.length
  | .escaped d _ => d.number
  | .ended o => o.result.attempts

theorem failed_heard {a : Attempt} (h : a.number = d.number) : (failed j d a).heard = d.number := by
  unfold failed
  split
  · exact List.length_append
  · exact h

theorem onAnswer_heard (answer : Except OracleFault String) :
    (onAnswer j d answer).heard = d.number := by
  cases answer with
  | error fault =>
    simp only [onAnswer]
    split <;> rfl
  | ok answer =>
    simp only [onAnswer]
    split
    · exact failed_heard rfl
    · split
      · exact failed_heard rfl
      · rfl

theorem onVerdict_heard (answer candidate : String) (m : Manifest)
    (verdict : Except OracleFault Verdict) :
    (onVerdict j d answer candidate m verdict).1.heard = d.number := by
  unfold onVerdict
  split
  · rfl
  · simp only
    split
    · rfl
    · exact failed_heard rfl

theorem failed_answered {a : Attempt} (h : r.SoFar j d.attempts) (hnumber : a.number = d.number)
    (hanswer : r.answer d.number = .ok a.answer)
    (hcandidate : a.candidate = r.candidate j.options.direction d.number)
    (hsuccess : a.verdict.success = false) (hfails : r.Fails j.options.direction d.number) :
    (failed j d a).Answered r j ∧ (failed j d a).judgedUpTo = d.number := by
  have hlength : (d.attempts ++ [a]).length = d.number := List.length_append
  have hbefore : r.FailsBefore j.options.direction (d.number + 1) := h.fails.succ hfails
  have hrecords : r.Records j.options.direction (List.replicate d.number false)
      (d.attempts ++ [a]) := by
    have hsnoc := h.records.snoc hnumber hanswer hcandidate
    rwa [hsuccess, ← List.replicate_succ'] at hsnoc
  have hlatest : bestCandidate (d.attempts ++ [a])
      = r.latest j.options.direction d.number := by
    rw [bestCandidate_snoc, hcandidate, h.latest]
    rfl
  unfold failed
  split
  · next hlt =>
    refine ⟨⟨?_, ?_, ?_, ?_⟩, hlength⟩
    · rwa [hlength, ← hnumber]
    · rwa [hlength]
    · rwa [hlength]
    · rwa [hlength]
  · next hlast =>
    have hroom := h.room
    have hmax : d.number = j.options.maxAttempts := by
      simp only [hnumber, Draft.number] at hlast ⊢
      omega
    refine ⟨⟨?_, ?_, ?_⟩, hnumber⟩
    · rw [result, hnumber]
      exact Nat.succ_pos _
    · rw [result, hnumber, hmax]
    · simp only [result, hnumber, hmax]
      rw [hmax] at hbefore hrecords hlatest
      exact .exhausted hbefore (by rw [hlatest]; rfl) hrecords

theorem onAnswer_answered (h : r.SoFar j d.attempts) :
    (onAnswer j d (r.answer d.number)).Answered r j ∧
      r.checks j.options.direction (onAnswer j d (r.answer d.number)).judgedUpTo
        = r.checks j.options.direction d.attempts.length := by
  -- An attempt without a candidate adds nothing to check.
  have hnone (hempty : r.candidate j.options.direction d.number = "") :
      r.checks j.options.direction d.number
        = r.checks j.options.direction d.attempts.length := by
    rw [Draft.number] at hempty
    rw [Draft.number, Replies.checks_succ, if_pos hempty, List.append_nil]
  have hpos : 1 ≤ d.number := Nat.succ_pos _
  cases hanswer : r.answer d.number with
  | error fault =>
    have hempty := Replies.candidate_error (d := j.options.direction) hanswer
    simp only [onAnswer]
    split
    · next htransport =>
      exact ⟨⟨hpos, h.room, .outage h.fails ⟨hanswer, htransport⟩ rfl h.records⟩, hnone hempty⟩
    · next htransport =>
      exact ⟨⟨h.room, .escaped h.fails ⟨.inl hanswer, by simpa using htransport⟩⟩,
        hnone hempty⟩
  | ok answer =>
    have hcandidate := Replies.candidate_ok (d := j.options.direction) hanswer
    have hfailed (hempty : r.candidate j.options.direction d.number = "") (diagnostic : String) :
        (failed j (d.advance .sanitizing) ⟨d.number, answer,
          Candidate.ofAnswer j.options.direction answer, .failed diagnostic⟩).Answered r j ∧
        r.checks j.options.direction (failed j (d.advance .sanitizing) ⟨d.number, answer,
          Candidate.ofAnswer j.options.direction answer, .failed diagnostic⟩).judgedUpTo
            = r.checks j.options.direction d.attempts.length := by
      obtain ⟨hanswered, hjudged⟩ := failed_answered (d := d.advance .sanitizing)
        (a := ⟨d.number, answer, Candidate.ofAnswer j.options.direction answer,
          .failed diagnostic⟩) h rfl hanswer hcandidate.symm rfl (Replies.fails_empty hanswer hempty)
      exact ⟨hanswered, by rw [hjudged]; exact hnone hempty⟩
    simp only [onAnswer]
    split
    · next hblank => exact hfailed (hcandidate.trans (Candidate.ofAnswer_blank _ hblank)) _
    · split
      · next hempty => exact hfailed (hcandidate.trans hempty) _
      · next hcode => exact ⟨⟨h, hanswer, hcandidate.symm, hcode⟩, rfl⟩

theorem onVerdict_answered {answer candidate : String} (h : (checking d answer candidate).Answered r j)
    (m : Manifest) :
    (onVerdict j d answer candidate m (r.verdict d.number)).1.Answered r j ∧
      (onVerdict j d answer candidate m (r.verdict d.number)).1.judgedUpTo = d.number := by
  obtain ⟨hsofar, hanswer, rfl, hcode⟩ := h
  have hpos : 1 ≤ d.number := Nat.succ_pos _
  unfold onVerdict
  split
  · next fault hjudged =>
    exact ⟨⟨hsofar.room, .escaped hsofar.fails (Replies.escapes_judged hcode hjudged)⟩, rfl⟩
  · next v hjudged =>
    simp only
    split
    · next hsuccess =>
      have hpasses := (Replies.judged_success hcode hjudged).1 hsuccess
      have hrecords := hsofar.records.snoc (a := ⟨d.number, answer,
        r.candidate j.options.direction d.number, v⟩) rfl hanswer rfl
      rw [hsuccess] at hrecords
      exact ⟨⟨hpos, hsofar.room, .passed hsofar.fails hpasses rfl hrecords⟩, rfl⟩
    · next hsuccess =>
      have hsuccess : v.success = false := by simpa using hsuccess
      exact failed_answered hsofar rfl hanswer rfl hsuccess
        (Replies.fails_judged hanswer hcode hjudged hsuccess)

end Conversion

namespace Seat

def asks? : Seat → Option Nat
  | .asking d _ => some d.number
  | .queued | .checking _ _ _ _ | .settled _ => none

def checks? : Seat → Option (Nat × String)
  | .checking d _ candidate _ => some (d.number, candidate)
  | .queued | .asking _ _ | .settled _ => none

end Seat

namespace Replies

/-- The call that the file waits for brings the reply to its attempt. -/
def HeardBy (r : Replies) : Seat → Prop
  | .asking d call => call.ending = .finished (r.answer d.number)
  | .checking d _ _ call => call.ending = .finished (r.verdict d.number)
  | .queued | .settled _ => True

def HeardIn (r : Replies) (services : Services σ) (terms : Terms) (j : Job) (s : Shared σ) : Prop :=
  ∀ seat ∈ Seat.trail services terms j (Seat.stepBound j) .queued s, r.HeardBy seat

/-- The questions asked so far are those of the first attempts, and what was checked so far are the
candidates of the first attempts. -/
structure Called (r : Replies) (d : Direction) (past : List Seat) (asked checked : Nat) : Prop where
  asks : past.filterMap Seat.asks? = List.range' 1 asked
  checks : past.filterMap Seat.checks? = r.checks d checked

theorem Called.snoc {r : Replies} {d : Direction} {past : List Seat} {asked checked : Nat}
    (h : r.Called d past asked checked) {seat : Seat} {asked' checked' : Nat}
    (hasks : List.range' 1 asked ++ seat.asks?.toList = List.range' 1 asked')
    (hchecks : r.checks d checked ++ seat.checks?.toList = r.checks d checked') :
    r.Called d (past ++ [seat]) asked' checked' := by
  have hone {α : Type} (f : Seat → Option α) : [seat].filterMap f = (f seat).toList := by
    cases hf : f seat <;> simp [hf]
  refine ⟨?_, ?_⟩
  · rw [List.filterMap_append, h.asks, hone, hasks]
  · rw [List.filterMap_append, h.checks, hone, hchecks]

end Replies

namespace Seat

variable {r : Replies} {j : Job}

def Answered (r : Replies) (j : Job) (past : List Seat) : Seat → Prop
  | .queued => past = []
  | .asking d _ => r.SoFar j d.attempts ∧
      r.Called j.options.direction past d.number d.attempts.length
  | .checking d answer candidate _ => (Conversion.checking d answer candidate).Answered r j ∧
      r.Called j.options.direction past d.number d.number
  | .settled report => ∃ n, 1 ≤ n ∧ n ≤ j.options.maxAttempts ∧ r.Yields j n report ∧
      r.Called j.options.direction past n n

theorem await_answered (services : Services σ) (terms : Terms) (s : Shared σ) {c : Conversion}
    {past : List Seat} (h : c.Answered r j)
    (hcalled : r.Called j.options.direction past c.heard c.judgedUpTo) :
    (await services terms j s c).1.Answered r j (past ++ [(await services terms j s c).1]) := by
  cases c with
  | asking d =>
    have hasks : List.range' 1 d.attempts.length ++ [d.number] = List.range' 1 d.number := by
      rw [Draft.number, List.range'_concat, Nat.one_mul, Nat.add_comm]
    exact ⟨h, hcalled.snoc hasks (List.append_nil _)⟩
  | checking d answer candidate =>
    obtain ⟨hsofar, hanswer, rfl, hcode⟩ := h
    have hchecks : r.checks j.options.direction d.attempts.length
        ++ [(d.number, r.candidate j.options.direction d.number)]
          = r.checks j.options.direction d.number := by
      rw [Draft.number] at hcode
      rw [Draft.number, Replies.checks_succ, if_neg hcode]
    exact ⟨⟨hsofar, hanswer, rfl, hcode⟩, hcalled.snoc (List.append_nil _) hchecks⟩
  | escaped d fault =>
    exact ⟨d.number, Nat.succ_pos _, h.1, h.2, hcalled.snoc (List.append_nil _) (List.append_nil _)⟩
  | ended o =>
    exact ⟨o.result.attempts, h.1, h.2.1, h.2.2,
      hcalled.snoc (List.append_nil _) (List.append_nil _)⟩

theorem step_answered (services : Services σ) (terms : Terms) (s : Shared σ) {seat : Seat}
    {past : List Seat} (h : seat.Answered r j past) (hheard : r.HeardBy seat)
    (hopen : seat.report? = none) :
    (seat.step services terms j s).1.Answered r j (past ++ [(seat.step services terms j s).1]) := by
  cases seat with
  | queued =>
    obtain rfl : past = [] := h
    have hstart : Conversion.start.Answered r j :=
      ⟨j.options.maxAttempts_pos, fun k hpos hk => absurd hpos (by simpa using hk),
        Replies.records_nil, rfl⟩
    exact await_answered services terms _ hstart ⟨rfl, rfl⟩
  | asking d call =>
    obtain ⟨hsofar, hcalled⟩ := h
    obtain ⟨hanswered, hjudged⟩ := Conversion.onAnswer_answered hsofar
    have hcall : call.ending = .finished (r.answer d.number) := hheard
    simp only [step, resume, hcall]
    refine await_answered services terms _ hanswered ⟨?_, ?_⟩
    · rw [Conversion.onAnswer_heard]
      exact hcalled.asks
    · rw [hjudged]
      exact hcalled.checks
  | checking d answer candidate call =>
    obtain ⟨hchecking, hcalled⟩ := h
    obtain ⟨hanswered, hjudged⟩ := Conversion.onVerdict_answered hchecking s.manifest
    have hcall : call.ending = .finished (r.verdict d.number) := hheard
    simp only [step, resume, hcall]
    refine await_answered services terms _ hanswered ⟨?_, ?_⟩
    · rw [Conversion.onVerdict_heard]
      exact hcalled.asks
    · rw [hjudged]
      exact hcalled.checks
  | settled report => cases hopen

end Seat

/-- The file comes to what the replies yield at the attempt that decides, after one question for each
attempt up to it and one check for each candidate on the way. -/
def Replies.Decide (r : Replies) (services : Services σ) (terms : Terms) (j : Job) (s : Shared σ) :
    Prop :=
  ∃ n, 1 ≤ n ∧ n ≤ j.options.maxAttempts ∧ r.Yields j n (j.run services terms s).1 ∧
    r.Called j.options.direction (Seat.trail services terms j (Seat.stepBound j) .queued s) n n

theorem Job.run_decided {services : Services σ} {terms : Terms} {j : Job} {s : Shared σ}
    {r : Replies} (hr : r.HeardIn services terms j s) : r.Decide services terms j s := by
  have htrail := Seat.trail_induct services terms j
    (P := fun past seat _ => (∀ x ∈ past, r.HeardBy x) → r.HeardBy seat ∧ seat.Answered r j past)
    (fun past seat s h hopen hheard => by
      obtain ⟨hseat, hanswered⟩ := h fun x hx => hheard x (List.mem_append_left _ hx)
      exact ⟨hheard _ (List.mem_append_right _ List.mem_cons_self),
        Seat.step_answered services terms s hanswered hseat hopen⟩)
    (Seat.stepBound j) [] .queued s (fun _ => ⟨trivial, rfl⟩)
  obtain ⟨-, hanswered⟩ := htrail hr
  obtain ⟨report, hreport⟩ := Seat.steps_settled services terms j
    (show Seat.queued.Fits j from trivial) (Nat.le_refl (Seat.stepBound j)) s
  rw [hreport] at hanswered
  have hrun : (j.run services terms s).1 = report := by
    simp only [Job.run, hreport]
    rfl
  rw [Replies.Decide, hrun]
  exact hanswered

/-- Services that bring these replies to the one file that they work for. Their world is the number of
the question that was answered last. -/
def Services.saying (r : Replies) : Services Nat where
  ask _ _ n := (⟨[], .finished (r.answer (n + 1))⟩, n + 1)
  check _ _ _ n := (⟨[], .finished (r.verdict n)⟩, n)

namespace Seat

def Told (r : Replies) : Seat → Nat → Prop
  | .queued, n => n = 0
  | .asking d call, n => r.HeardBy (.asking d call) ∧ n = d.number
  | .checking d answer candidate call, n =>
    r.HeardBy (.checking d answer candidate call) ∧ n = d.number
  | .settled _, _ => True

theorem await_told {r : Replies} (terms : Terms) (j : Job) {s : Shared Nat} {c : Conversion}
    (h : s.world = c.heard) : (await (.saying r) terms j s c).1.Told r
      (await (.saying r) terms j s c).2.world := by
  cases c with
  | asking d => exact ⟨congrArg (fun n => Ending.finished (r.answer (n + 1))) h, congrArg (· + 1) h⟩
  | checking d answer candidate => exact ⟨congrArg (fun n => Ending.finished (r.verdict n)) h, h⟩
  | escaped d fault => trivial
  | ended o => trivial

theorem step_told {r : Replies} (terms : Terms) (j : Job) {s : Shared Nat} {seat : Seat}
    (h : seat.Told r s.world) : (seat.step (.saying r) terms j s).1.Told r
      (seat.step (.saying r) terms j s).2.world := by
  cases seat with
  | queued => exact await_told terms j (c := Conversion.start) h
  | asking d call =>
    obtain ⟨hcall, hworld⟩ := h
    have hcall : call.ending = .finished (r.answer d.number) := hcall
    simp only [step, resume, hcall]
    exact await_told terms j (hworld.trans (Conversion.onAnswer_heard _).symm)
  | checking d answer candidate call =>
    obtain ⟨hcall, hworld⟩ := h
    have hcall : call.ending = .finished (r.verdict d.number) := hcall
    simp only [step, resume, hcall]
    exact await_told terms j (hworld.trans (Conversion.onVerdict_heard _ _ _ _).symm)
  | settled report => trivial

end Seat

/-- Whatever the replies are, there are services that bring them. -/
theorem Services.saying_heard (r : Replies) (terms : Terms) (j : Job) (m : Manifest) :
    r.HeardIn (.saying r) terms j ⟨m, 0⟩ := by
  have htrail := Seat.trail_induct (.saying r) terms j
    (P := fun past seat s => (∀ x ∈ past, r.HeardBy x) ∧ seat.Told r s.world)
    (fun past seat s h hopen => ?_) (Seat.stepBound j) [] .queued ⟨m, 0⟩ ⟨by simp, rfl⟩
  · exact htrail.1
  · have htold := Seat.step_told terms j h.2
    refine ⟨fun x hx => ?_, htold⟩
    rcases List.mem_append.1 hx with hx | hx
    · exact h.1 x hx
    · obtain rfl := List.mem_singleton.1 hx
      cases hnext : (seat.step (.saying r) terms j s).1 with
      | asking d call | checking d answer candidate call =>
        rw [hnext] at htold
        exact htold.1
      | _ => trivial

def Replies.wavering : Replies where
  answer n := if n = 1 then .ok "" else .ok "struct A {}"
  verdict n := if n = 2 then .error (.timeout 60) else .ok (.failed "error: no such module 'Core'")

def Job.single : Job := ⟨⟨"a.kt", .kotlin, "class A"⟩, {}, Summary.ofSources [], Manifest.empty⟩

/-- The third attempt is the last one, and passes. -/
theorem Job.single_decided :
    Replies.wavering.HeardIn (.saying .wavering) {} .single ⟨Manifest.empty, 0⟩ ∧
      Replies.wavering.Decide (.saying .wavering) {} .single ⟨Manifest.empty, 0⟩ ∧
      (match (Job.single.run (.saying .wavering) {} ⟨Manifest.empty, 0⟩).1 with
        | .converted o => o.result.verified && o.result.attempts == 3
        | _ => false) = true :=
  have hheard := Services.saying_heard .wavering {} .single Manifest.empty
  ⟨hheard, Job.run_decided hheard, by decide +kernel⟩

end Crosswalk
