import Crosswalk.Proofs.Batch.Accounting
import Crosswalk.Proofs.Batch.Company
import Crosswalk.Proofs.Batch.Completion
import Crosswalk.Proofs.Batch.Provenance

namespace Crosswalk

variable {σ ν : Type}

theorem Report.settle_forget (path : String) (r : Report) : r.forget.settle path = r.settle path := by
  cases r <;> rfl

theorem Report.verified?_forget (r : Report) : r.forget.verified? = r.verified? := by
  cases r <;> rfl

theorem Seat.verified?_forget (seat : Seat) : seat.forget.verified? = seat.verified? := by
  cases seat with
  | settled r => exact r.verified?_forget
  | _ => rfl

theorem Desk.isVerified_forget (p : Desk) : p.forget.isVerified = p.isVerified :=
  congrArg Option.isSome (Seat.verified?_forget p.seat)

namespace Manifest

theorem after_forget (m : Manifest) (desks : List Desk) :
    m.after (desks.map Desk.forget) = m.after desks := by
  rw [after, after, List.foldl_map]
  simp only [Desk.forget, Seat.verified?_forget]

theorem after_definitions (m : Manifest) {desks desks' : List Desk} (h : desks.Perm desks') :
    (m.after desks).definitions = (m.after desks').definitions := by
  refine NameSet.ext_contains fun name => ?_
  have hdefined : (m.after desks).isDefined name = true
      ↔ (m.after desks').isDefined name = true := by
    simp only [isDefined_after, h.mem_iff]
  exact Bool.eq_iff_iff.2 hdefined

/-- What the verified desks record has no names in common. -/
def NamesApart (desks : List Desk) : Prop :=
  ∀ p ∈ desks, ∀ q ∈ desks, p.index ≠ q.index → ∀ c c', p.seat.verified? = some c →
    q.seat.verified? = some c' →
    DeclareApart p.job.source.content q.job.source.content ∧ DeclareApart c.content c'.content

theorem after_perm (m : Manifest) {desks desks' : List Desk} (h : desks.Perm desks')
    (hnodup : (desks.map (·.index)).Nodup) (hapart : NamesApart desks) :
    m.after desks = m.after desks' := by
  refine h.foldl_eq' (fun p hp q hq n => ?_) m
  by_cases hindex : p.index = q.index
  · rw [List.inj_on_of_nodup_map hnodup hp hq hindex]
  · cases hc : p.seat.verified? with
    | none => rfl
    | some c =>
      cases hc' : q.seat.verified? with
      | none => rfl
      | some c' =>
        obtain ⟨hsource, hcandidate⟩ := hapart p hp q hq hindex c c' hc hc'
        exact record_comm n c.outputPath c'.outputPath hsource hcandidate

end Manifest

namespace Hall

theorem SameCourse.writers_perm {h h' : Hall σ} {past past' : List Desk}
    (hs : h.SameCourse h' past past') (ha : h.Agrees past) (ha' : h'.Agrees past') :
    ((past.filter Desk.isVerified).map Desk.forget).Perm
      ((past'.filter Desk.isVerified).map Desk.forget) := by
  have hnodup {g : Hall σ} {old : List Desk} (hg : g.Agrees old) :
      ((old.filter Desk.isVerified).map Desk.forget).Nodup := by
    refine List.Nodup.of_map (·.index) ?_
    rw [List.map_map]
    exact hg.once
  have hmem {g : Hall σ} {old : List Desk} (hg : g.Agrees old) (q : Desk) :
      q ∈ (old.filter Desk.isVerified).map Desk.forget ↔
        q ∈ g.desks.map Desk.forget ∧ q.isVerified = true := by
    simp only [List.mem_map, List.mem_filter]
    constructor
    · rintro ⟨p, ⟨hp, hverified⟩, rfl⟩
      exact ⟨⟨p, (hg.same p hverified).1 hp, rfl⟩, (Desk.isVerified_forget p).trans hverified⟩
    · rintro ⟨⟨p, hp, rfl⟩, hverified⟩
      rw [Desk.isVerified_forget] at hverified
      exact ⟨p, ⟨(hg.same p hverified).2 hp, hverified⟩, rfl⟩
  rw [List.perm_ext_iff_of_nodup (hnodup ha) (hnodup ha')]
  intro q
  rw [hmem ha, hmem ha', hs.desks]

theorem follow_lanes {services : Services σ} {terms : Terms} (h : Hall σ) (moves : List Move) :
    (h.follow services terms moves).book.tally.sequentialFiles = h.book.tally.sequentialFiles ∧
      (h.follow services terms moves).book.tally.parallelFiles = h.book.tally.parallelFiles := by
  refine follow_induct (P := fun h' => h'.book.tally.sequentialFiles = h.book.tally.sequentialFiles ∧
    h'.book.tally.parallelFiles = h.book.tally.parallelFiles) (fun _ _ _ heq _ => heq) ?_ ⟨rfl, rfl⟩
    moves
  intro h' i p r path heq hp hr hpath
  cases r with
  | converted o => exact heq
  | escaped fault | broken reason => exact heq

end Hall

theorem Book.Keeps.tally_eq {files : List Source} {d : Direction} {b b' : Book}
    (hb : b.Keeps files d) (hb' : b'.Keeps files d)
    (hsequential : b.tally.sequentialFiles = b'.tally.sequentialFiles)
    (hparallel : b.tally.parallelFiles = b'.tally.parallelFiles) (hresults : b.results = b'.results)
    (errors : Nat) : { b.tally with errors } = { b'.tally with errors } := by
  have hinputs := hb.inputs.trans hb'.inputs.symm
  have hverified := hb.verified.trans (hresults ▸ hb'.verified.symm)
  have hplaceholders := hb.placeholders.trans (hresults ▸ hb'.placeholders.symm)
  have hways := hb.ways.trans (hresults ▸ hb'.ways.symm)
  have hattempts := hb.attempts.trans (hresults ▸ hb'.attempts.symm)
  have hexhausted : b.tally.exhausted = b'.tally.exhausted := by omega
  rw [Tally.mk.injEq]
  exact ⟨hinputs, hsequential, hparallel, hverified, hexhausted, hplaceholders, rfl, hattempts⟩

namespace Batch

def sequentialSteps (services : Services σ) (terms : Terms) (options : ResolvedOptions)
    (summary : Summary) : List (Source × Nat) → Shared σ → List Desk
  | [], _ => []
  | (file, index) :: rest, s =>
    let j : Job := ⟨file, options, summary, s.manifest⟩
    (Seat.trail services terms j (Seat.stepBound j) .queued s).map (⟨index, j, ·⟩)
      ++ sequentialSteps services terms options summary rest (j.run services terms s).2

theorem sequentialSteps_over (services : Services σ) (terms : Terms) (options : ResolvedOptions)
    (summary : Summary) (list : List (Source × Nat)) (s : Shared σ) :
    (sequentialSteps services terms options summary list s).filter (·.seat.report?.isSome)
      = (runSequential services terms options summary list s).1 := by
  induction list generalizing s with
  | nil => rfl
  | cons f rest ih =>
    obtain ⟨file, index⟩ := f
    let j : Job := ⟨file, options, summary, s.manifest⟩
    obtain ⟨r, hr⟩ := Seat.steps_settled services terms j (show Seat.queued.Fits j from trivial)
      (Nat.le_refl (Seat.stepBound j)) s
    have htrail := Seat.trail_report services terms j (show Seat.queued.report? = none from rfl) hr
    have hdesks : ((Seat.trail services terms j (Seat.stepBound j) .queued s).map
        fun seat => (⟨index, j, seat⟩ : Desk)).filter (·.seat.report?.isSome)
          = [⟨index, j, .settled r⟩] := by
      rw [List.filter_map]
      exact congrArg (List.map _) htrail
    have hrun : (j.run services terms s).1 = r := by
      simp only [Job.run, hr]
      rfl
    rw [sequentialSteps, List.filter_append, ih, hdesks, ← hrun]
    rfl

def stepsIn (moves : List Move) (e : Engine σ) (options : ResolvedOptions) (files : List Source)
    (world : σ) : List Desk :=
  sequentialSteps e.services e.terms options (Summary.ofSources files)
      (lane e.threshold files .sequential) ⟨Manifest.empty, world⟩
    ++ (opened e options files world).history e.services e.terms moves

def requestsIn (moves : List Move) (e : Engine σ) (options : ResolvedOptions) (files : List Source)
    (world : σ) (index : Nat) : List Request :=
  ((stepsIn moves e options files world).filter (·.index == index)).filterMap fun p =>
    (p.asked? e.terms).map (·.2)

/-- Two runs of a batch that differ in their schedule only. -/
structure SameBatch (moves moves' : List Move) (e e' : Engine σ) (options : ResolvedOptions)
    (files : List Source) (world : σ) : Prop where
  requests : ∀ index, requestsIn moves e options files world index
    = requestsIn moves' e' options files world index
  outcomes : (desksIn moves e options files world).map Desk.forget
    = (desksIn moves' e' options files world).map Desk.forget
  entries : entriesIn moves e options files world = entriesIn moves' e' options files world
  definitions : (convertIn moves e options files world).1.manifest.definitions
    = (convertIn moves' e' options files world).1.manifest.definitions
  whole : Manifest.NamesApart (hallAfter moves e options files world).desks →
    (convertIn moves e options files world).1 = (convertIn moves' e' options files world).1

variable {moves moves' : List Move} {e : Engine σ} {options : ResolvedOptions} {files : List Source}
  {world : σ} {permits : Nat} {habits : Habits ν} {memory : σ → String → ν}

theorem hallAfter_lanes (moves : List Move) (e : Engine σ) (options : ResolvedOptions)
    (files : List Source) (world : σ) :
    (hallAfter moves e options files world).book.tally.sequentialFiles
        = (openedBook e options files world).tally.sequentialFiles ∧
      (hallAfter moves e options files world).book.tally.parallelFiles
        = (openedBook e options files world).tally.parallelFiles :=
  Hall.follow_lanes (opened e options files world) moves

theorem hallAfter_cards (moves : List Move) (e : Engine σ) (options : ResolvedOptions)
    (files : List Source) (world : σ) :
    (hallAfter moves e options files world).desks.map Hall.card
      = (opened e options files world).desks.map Hall.card := Hall.follow_cards _ moves

theorem hallAfter_apart (hsteady : e.services.Steady e.terms files habits memory)
    (hpaths : (files.map (·.path)).Nodup) (moves : List Move) (options : ResolvedOptions)
    (world : σ) : (hallAfter moves e options files world).Apart files options.direction e.terms habits
      memory (sequentialRun e options files world).2.world
      ((opened e options files world).history e.services e.terms moves) :=
  Hall.follow_apart hsteady hpaths (opened_keeps e options files world)
    (fun _ hp => (opened_desk hp).2.1) moves

theorem hallAfter_sameCourse (hsteady : e.services.Steady e.terms files habits memory)
    (hpaths : (files.map (·.path)).Nodup) (hdone : Completes moves e options files world)
    (hdone' : Completes moves' { e with permits } options files world) :
    (hallAfter moves e options files world).SameCourse
      (hallAfter moves' { e with permits } options files world)
      ((opened e options files world).history e.services e.terms moves)
      ((opened { e with permits } options files world).history e.services e.terms moves') := by
  have ha := hallAfter_apart hsteady hpaths moves options world
  have ha' := hallAfter_apart (e := { e with permits }) hsteady hpaths moves' options world
  have hcards := hallAfter_cards moves e options files world
  have hcards' := hallAfter_cards moves' { e with permits } options files world
  exact ha.sameCourse ha' (hcards.trans hcards'.symm) hdone hdone'

theorem entry_of_forget {e e' : Engine σ} (hdone : Completes moves e options files world)
    (hdone' : Completes moves' e' options files world) {p p' : Desk}
    (hp : p ∈ desksIn moves e options files world) (hp' : p' ∈ desksIn moves' e' options files world)
    (heq : p.forget = p'.forget) : (entriesIn moves e options files world)[p.index]?
      = (entriesIn moves' e' options files world)[p.index]? := by
  obtain ⟨r, hr, hentry⟩ := entry_of_desk hdone hp
  obtain ⟨r', hr', hentry'⟩ := entry_of_desk hdone' hp'
  obtain ⟨index, j, seat⟩ := p
  obtain ⟨index', j', seat'⟩ := p'
  simp only [Desk.forget, Desk.mk.injEq] at heq hr hr'
  obtain ⟨rfl, rfl, hseat⟩ := heq
  subst hr hr'
  have hreport : r.forget = r'.forget := Seat.settled.inj hseat
  have hsettle : r.settle j.source.path = r'.settle j.source.path := by
    rw [← Report.settle_forget, hreport, Report.settle_forget]
  rw [hentry, hentry', hsettle]

theorem entriesIn_eq {e e' : Engine σ} (hdone : Completes moves e options files world)
    (hdone' : Completes moves' e' options files world)
    (hdesks : (desksIn moves e options files world).map Desk.forget
      = (desksIn moves' e' options files world).map Desk.forget) :
    entriesIn moves e options files world = entriesIn moves' e' options files world := by
  refine List.ext_getElem? fun i => ?_
  by_cases hi : i < files.length
  · obtain ⟨p, hp, rfl⟩ := exists_desk hi
    have hmem := List.mem_map_of_mem (f := Desk.forget) hp
    rw [hdesks, List.mem_map] at hmem
    obtain ⟨p', hp', heq⟩ := hmem
    exact entry_of_forget hdone hdone' hp hp' heq.symm
  · rw [List.getElem?_eq_none (entriesIn_length ▸ Nat.le_of_not_lt hi),
      List.getElem?_eq_none (entriesIn_length ▸ Nat.le_of_not_lt hi)]

theorem hallAfter_writers (moves : List Move) (e : Engine σ) (options : ResolvedOptions)
    (files : List Source) (world : σ) :
    (hallAfter moves e options files world).shared.manifest
      = (sequentialRun e options files world).2.manifest.after
        ((((opened e options files world).history e.services e.terms moves).filter
          Desk.isVerified).map Desk.forget) := by
  rw [Manifest.after_forget, Manifest.after_filter]
  exact Hall.follow_manifest (opened e options files world) moves

theorem requests_of_forget (terms : Terms) {desks desks' : List Desk}
    (h : desks.map Desk.forget = desks'.map Desk.forget) :
    desks.filterMap (fun p => (p.asked? terms).map (·.2))
      = desks'.filterMap fun p => (p.asked? terms).map (·.2) := by
  have hasked (desks : List Desk) : desks.filterMap (fun p => (p.asked? terms).map (·.2))
      = (desks.map Desk.forget).filterMap fun p => (p.asked? terms).map (·.2) := by
    simp only [List.filterMap_map, Function.comp_def, Desk.asked?_forget]
  rw [hasked, h, ← hasked]

theorem requestsIn_eq (hsame : (hallAfter moves e options files world).SameCourse
      (hallAfter moves' { e with permits } options files world)
      ((opened e options files world).history e.services e.terms moves)
      ((opened { e with permits } options files world).history e.services e.terms moves'))
    (index : Nat) : requestsIn moves e options files world index
      = requestsIn moves' { e with permits } options files world index := by
  simp only [requestsIn, stepsIn, List.filter_append, List.filterMap_append]
  exact congrArg₂ (· ++ ·) rfl (requests_of_forget e.terms (hsame.steps index))

theorem convertIn_eq (hdone : Completes moves e options files world)
    (hdone' : Completes moves' { e with permits } options files world)
    (hentries : entriesIn moves e options files world
      = entriesIn moves' { e with permits } options files world)
    (hmanifest : (hallAfter moves e options files world).shared.manifest
      = (hallAfter moves' { e with permits } options files world).shared.manifest) :
    (convertIn moves e options files world).1
      = (convertIn moves' { e with permits } options files world).1 := by
  have hkeeps := (hallAfter_keeps moves e options files world).close
  have hkeeps' := (hallAfter_keeps moves' { e with permits } options files world).close
  have hresults : (hallAfter moves e options files world).close.results
      = (hallAfter moves' { e with permits } options files world).close.results := by
    rw [← Book.entries_results hkeeps.size, ← Book.entries_results hkeeps'.size]
    exact congrArg (List.filterMap Entry.result?) hentries
  have hlanes := hallAfter_lanes moves e options files world
  have hlanes' := hallAfter_lanes moves' { e with permits } options files world
  have htally (errors : Nat) := hkeeps.tally_eq hkeeps'
    (by rw [Hall.close_done hdone, Hall.close_done hdone', hlanes.1, hlanes'.1]; rfl)
    (by rw [Hall.close_done hdone, Hall.close_done hdone', hlanes.2, hlanes'.2]; rfl) hresults errors
  unfold entriesIn at hentries
  simp only [convertIn, convertBy, ofBook]
  unfold hallAfter at hentries hmanifest htally
  simp only [hentries, hmanifest, htally]

/-- Files that are treated by themselves go the same way in every schedule. -/
theorem schedule_independent (hsteady : e.services.Steady e.terms files habits memory)
    (hpaths : (files.map (·.path)).Nodup) (hdone : Completes moves e options files world)
    (hdone' : Completes moves' { e with permits } options files world) :
    SameBatch moves moves' e { e with permits } options files world := by
  have hsame := hallAfter_sameCourse hsteady hpaths hdone hdone'
  have hdesks : (desksIn moves e options files world).map Desk.forget
      = (desksIn moves' { e with permits } options files world).map Desk.forget := by
    rw [desksIn, desksIn, List.map_append, List.map_append, hsame.desks]
    rfl
  have hentries := entriesIn_eq hdone hdone' hdesks
  have hagrees := opened_agrees moves e options files world
  have hperm :=
    hsame.writers_perm hagrees (opened_agrees moves' { e with permits } options files world)
  refine ⟨requestsIn_eq hsame, hdesks, hentries, ?_, fun hapart => ?_⟩
  · rw [convertIn_manifest, convertIn_manifest, hallAfter_writers, hallAfter_writers]
    exact Manifest.after_definitions _ hperm
  · have hmanifest : (hallAfter moves e options files world).shared.manifest
        = (hallAfter moves' { e with permits } options files world).shared.manifest := by
      rw [hallAfter_writers, hallAfter_writers]
      refine Manifest.after_perm _ hperm ?_ ?_
      · rw [List.map_map]
        exact hagrees.once
      · intro p hp q hq hne c c' hc hc'
        obtain ⟨a, ha, rfl⟩ := List.mem_map.1 hp
        obtain ⟨b, hb, rfl⟩ := List.mem_map.1 hq
        obtain ⟨ha, hverified⟩ := List.mem_filter.1 ha
        obtain ⟨hb, hverified'⟩ := List.mem_filter.1 hb
        exact hapart a ((hagrees.same a hverified).1 ha) b ((hagrees.same b hverified').1 hb) hne c c'
          ((Seat.verified?_forget _).symm.trans hc) ((Seat.verified?_forget _).symm.trans hc')
    exact convertIn_eq hdone hdone' hentries hmanifest

def oneByOne : List Move :=
  [.work 0, .work 0, .work 0, .collect 0, .work 1, .work 1, .work 1, .collect 1]

def sameHabits : Habits Unit where
  reply _ _ _ := .finished (.ok "struct A {}")
  next _ _ n := n
  verdict code _ _ :=
    .finished (.ok (if Text.allBlank code.toList then .failed "empty candidate" else .passed))

theorem sameAnswer_steady :
    sameAnswer.services.Steady sameAnswer.terms twoFiles sameHabits fun _ _ => () :=
  ⟨fun _ _ _ _ => rfl, fun _ _ _ _ => rfl, fun _ _ _ _ => rfl, fun _ _ _ _ => rfl⟩

def ownAnswer (request : Request) : String :=
  if request.messages[1]?.any fun m => m.content.toList.take 7 = "File: b".toList then "struct B {}"
  else "struct A {}"

def ownAnswers : Engine Unit where
  client := .remote (.ofComplete "own" fun request => .done (.ok ⟨ownAnswer request, "", ""⟩))
  checker := .acceptAll

def ownHabits : Habits Unit :=
  { sameHabits with reply := fun _ request _ => .finished (.ok (ownAnswer request)) }

theorem ownAnswers_steady :
    ownAnswers.services.Steady ownAnswers.terms twoFiles ownHabits fun _ _ => () :=
  ⟨fun _ _ _ _ => rfl, fun _ _ _ _ => rfl, fun _ _ _ _ => rfl, fun _ _ _ _ => rfl⟩

def declares (p : Desk) : Nat × Option String × Option (Option String) :=
  (p.index, Rules.declaredType? p.job.source.content,
    p.seat.verified?.map (Rules.declaredType? ·.content))

theorem braided_own :
    Completes braided ownAnswers {} twoFiles () ∧
      (writers braided ownAnswers {} twoFiles ()).map (·.index) = [1, 0] ∧
      (hallAfter braided ownAnswers {} twoFiles ()).desks.map declares
        = [(0, some "A", some (some "A")), (1, some "B", some (some "B"))] := by
  unfold Completes
  decide +kernel

theorem oneByOne_own :
    Completes oneByOne { ownAnswers with permits := 1 } {} twoFiles () ∧
      (writers oneByOne { ownAnswers with permits := 1 } {} twoFiles ()).map (·.index) = [0, 1] := by
  unfold Completes
  decide +kernel

theorem ownAnswers_apart :
    Manifest.NamesApart (hallAfter braided ownAnswers {} twoFiles ()).desks := by
  have hnames := braided_own.2.2
  intro p hp q hq hne c c' hc hc'
  have hp := List.mem_map_of_mem (f := declares) hp
  have hq := List.mem_map_of_mem (f := declares) hq
  rw [hnames, declares, hc] at hp
  rw [hnames, declares, hc'] at hq
  simp only [List.mem_cons, List.not_mem_nil, or_false, Prod.mk.injEq, Option.map_some,
    Option.some.injEq] at hp hq
  rcases hp with ⟨hp, hsource, hcandidate⟩ | ⟨hp, hsource, hcandidate⟩ <;>
    rcases hq with ⟨hq, hsource', hcandidate'⟩ | ⟨hq, hsource', hcandidate'⟩
  · exact absurd (hp.trans hq.symm) hne
  · simp [Manifest.DeclareApart, hsource, hsource', hcandidate, hcandidate']
  · simp [Manifest.DeclareApart, hsource, hsource', hcandidate, hcandidate']
  · exact absurd (hp.trans hq.symm) hne

/-- The files are verified in one order by the one run and in the other order by the other, and the
batches are the same. -/
theorem twoFiles_schedule :
    Completes braided ownAnswers {} twoFiles () ∧
      Completes oneByOne { ownAnswers with permits := 1 } {} twoFiles () ∧
      SameBatch braided oneByOne ownAnswers { ownAnswers with permits := 1 } {} twoFiles () ∧
      (writers braided ownAnswers {} twoFiles ()).map (·.index) = [1, 0] ∧
      (writers oneByOne { ownAnswers with permits := 1 } {} twoFiles ()).map (·.index) = [0, 1] ∧
      (convertIn braided ownAnswers {} twoFiles ()).1
        = (convertIn oneByOne { ownAnswers with permits := 1 } {} twoFiles ()).1 := by
  obtain ⟨hdone, hwriters, -⟩ := braided_own
  obtain ⟨hdone', hwriters'⟩ := oneByOne_own
  have hsame := schedule_independent ownAnswers_steady (by decide) hdone hdone'
  exact ⟨hdone, hdone', hsame, hwriters, hwriters', hsame.whole ownAnswers_apart⟩

def crowded : Engine Unit := { sameAnswer with permits := mostPermits + 1 }

theorem crowded_shut : opens crowded twoFiles = false := by decide +kernel

/-- A file that is asked about otherwise is not asked about at all, and there is no batch. -/
theorem crowded_breaks :
    requestsIn braided sameAnswer {} twoFiles () 0 ≠ [] ∧
      (∃ b, (run sameAnswer twoFiles {} ()).1 = .finished (.ok b)) ∧
      (∀ moves index, requestsIn moves crowded {} twoFiles () index = []) ∧
      (run crowded twoFiles {} ()).1 = .broken tooManyPermits := by
  refine ⟨by decide +kernel, ?_, fun moves index => ?_, ?_⟩
  · obtain ⟨moves, hrun, -⟩ := run_moves sameAnswer twoFiles {} ()
    rw [hrun, runIn_ok moves rfl (by decide +kernel)]
    exact ⟨_, rfl⟩
  · have hlane : lane crowded.threshold twoFiles .sequential = [] := by decide +kernel
    rw [requestsIn, stepsIn, (opened_idle crowded_shut {} ()).history, hlane]
    rfl
  · obtain ⟨moves, hrun, -⟩ := run_moves crowded twoFiles {} ()
    rw [hrun, runIn_shut moves rfl crowded_shut]

end Batch
end Crosswalk
