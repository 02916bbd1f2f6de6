import Crosswalk.Proofs.Batch.Completion
import Crosswalk.Proofs.Batch.Schedule
import Crosswalk.Proofs.Conversion.Siblings

namespace Crosswalk

variable {σ ν : Type}

def Engine.withClient (e : Engine σ) (client : Client σ) : Engine σ := { e with client }

def Converted.withoutContent (c : Converted) : Converted := { c with content := "" }

namespace Entry

def path : Entry → String
  | .ok c => c.path
  | .error f => f.path

/-- The same entry, unless both are about the file at the path. -/
def SameBut (path : String) (x x' : Entry) : Prop := x = x' ∨ x.path = path ∧ x'.path = path

variable {path : String} {xs xs' : List Entry}

theorem filterMap_sameBut {α : Type} {f : Entry → Option α}
    (hf : ∀ x : Entry, x.path = path → f x = none)
    (h : List.Forall₂ (SameBut path) xs xs') : xs.filterMap f = xs'.filterMap f := by
  induction h with
  | nil => rfl
  | cons hx _ ih =>
    rcases hx with rfl | ⟨hx, hx'⟩
    · rw [List.filterMap_cons, List.filterMap_cons, ih]
    · rw [List.filterMap_cons_none (hf _ hx), List.filterMap_cons_none (hf _ hx'), ih]

theorem failures_sameBut (h : List.Forall₂ (SameBut path) xs xs') :
    (xs.filterMap failure?).filter (·.path != path)
      = (xs'.filterMap failure?).filter (·.path != path) := by
  rw [List.filter_filterMap, List.filter_filterMap]
  refine filterMap_sameBut (fun x hx => ?_) h
  cases x with
  | ok c => rfl
  | error f =>
    have hf : f.path = path := hx
    simp [failure?, hf]

theorem results_sameBut (h : List.Forall₂ (SameBut path) xs xs') (d : Direction) (m m' : Manifest) :
    ((Unified.files d m (xs.filterMap result?)).filter (·.path != path)).map Converted.withoutContent
      = ((Unified.files d m' (xs'.filterMap result?)).filter (·.path != path)).map
        Converted.withoutContent := by
  let bare (c : Converted) : Option Converted :=
    if c.path = path then none else some c.withoutContent
  have hbare (cs : List Converted) : (cs.filter (·.path != path)).map Converted.withoutContent
      = cs.filterMap bare := by
    rw [← List.filterMap_eq_map, ← List.filterMap_eq_filter, List.filterMap_filterMap]
    refine List.filterMap_congr fun c _ => ?_
    by_cases hc : c.path = path <;> simp [bare, hc, Option.guard]
  have hunified (d : Direction) (m : Manifest) (cs : List Converted) :
      (Unified.files d m cs).filterMap bare = cs.filterMap bare := by
    rw [Unified.files, List.filterMap_map]
    refine List.filterMap_congr fun c _ => ?_
    obtain ⟨content, heq⟩ := Unified.file_keeps d m c
    rw [Function.comp_apply, heq]
    rfl
  rw [hbare, hbare, hunified, hunified, List.filterMap_filterMap, List.filterMap_filterMap]
  refine filterMap_sameBut (fun x hx => ?_) h
  cases x with
  | ok c => exact if_pos hx
  | error f => rfl

end Entry

theorem Habits.SameBut.sameAlone {habits habits' : Habits ν} {path : String}
    (h : habits.SameBut path habits') (terms : Terms) {j : Job} (hpath : j.source.path ≠ path)
    (x : ν) :
    SameAlone terms j habits habits' x x := by
  have htwins : Services.Twins terms j (· = ·) habits.services habits'.services := h.twins hpath
  have hsteps (n : Nat) := Seat.steps_twins htwins n
    (show Seat.queued.forget = Seat.queued.forget from rfl)
    (show (⟨Manifest.empty, x⟩ : Shared ν).world = (⟨Manifest.empty, x⟩ : Shared ν).world from rfl)
  exact ⟨fun n => (hsteps n).1, fun n => (hsteps n).2.2⟩

namespace Batch

/-- Two sequential lanes with the same manifest and related worlds, after the same steps. -/
structure SameLane (W : σ → σ → Prop) (run run' : List Desk × Shared σ) (steps steps' : List Desk) :
    Prop where
  desks : run.1.map Desk.forget = run'.1.map Desk.forget
  manifest : run.2.manifest = run'.2.manifest
  world : W run.2.world run'.2.world
  steps : steps.map Desk.forget = steps'.map Desk.forget

theorem runSequential_twins {W : σ → σ → Prop} {services services' : Services σ} {terms : Terms}
    {options : ResolvedOptions} {summary : Summary} {list : List (Source × Nat)}
    (ht : ∀ f ∈ list, ∀ m, Services.Twins terms ⟨f.1, options, summary, m⟩ W services services')
    {s s' : Shared σ} (hmanifest : s.manifest = s'.manifest) (hw : W s.world s'.world) :
    SameLane W (runSequential services terms options summary list s)
      (runSequential services' terms options summary list s')
      (sequentialSteps services terms options summary list s)
      (sequentialSteps services' terms options summary list s') := by
  induction list generalizing s s' with
  | nil => exact ⟨rfl, hmanifest, hw, rfl⟩
  | cons f rest ih =>
    obtain ⟨file, index⟩ := f
    let j : Job := ⟨file, options, summary, s'.manifest⟩
    have htwins : Services.Twins terms j W services services' := ht _ List.mem_cons_self s'.manifest
    obtain ⟨hreport, hworld⟩ := Job.run_twins htwins hw
    obtain ⟨-, -, htrail⟩ := Seat.steps_twins htwins (Seat.stepBound j)
      (show Seat.queued.forget = Seat.queued.forget from rfl) hw
    have hnext : (j.run services terms s).2.manifest = (j.run services' terms s').2.manifest := by
      rw [Job.run_manifest, Job.run_manifest, hmanifest, ← Report.verified?_forget, hreport,
        Report.verified?_forget]
    obtain ⟨hdesks, hlast, hworlds, hsteps⟩ :=
      ih (fun g hg => ht g (List.mem_cons_of_mem _ hg)) hnext hworld
    have hdesk (seat : Seat) : (⟨index, j, seat⟩ : Desk).forget = ⟨index, j, seat.forget⟩ := rfl
    simp only [runSequential, sequentialSteps, hmanifest]
    refine ⟨?_, hlast, hworlds, ?_⟩
    · rw [List.map_cons, List.map_cons, hdesks]
      exact congrArg (fun r => (⟨index, j, .settled r⟩ : Desk) :: _) hreport
    · rw [List.map_append, List.map_append, hsteps, List.map_map, List.map_map]
      refine congrArg (· ++ _) ?_
      have hmap := congrArg (List.map fun seat => (⟨index, j, seat⟩ : Desk)) htrail
      rwa [List.map_map, List.map_map] at hmap

/-- Two oracles for the batch that treat all files the same but for one that is converted in the
parallel lane. -/
structure DifferAt (i : Nat) (p : Source) (e : Engine σ) (client : Client σ) (files : List Source)
    (habits habits' : Habits ν) (memory : σ → String → ν) : Prop where
  file : files[i]? = some p
  parallel : Lane.ofSource e.threshold p = .parallel
  paths : (files.map (·.path)).Nodup
  steady : e.services.Steady e.terms files habits memory
  steady' : (e.withClient client).services.Steady e.terms files habits' memory
  same : habits.SameBut p.path habits'

/-- What two runs of a batch have in common apart from one input, and that this input does not keep the
other run from its end. -/
structure SameOthers (i : Nat) (path : String) (moves moves' : List Move) (e e' : Engine σ)
    (options : ResolvedOptions) (files : List Source) (world : σ) : Prop where
  requests : ∀ k, k ≠ i → requestsIn moves e options files world k
    = requestsIn moves' e' options files world k
  entries : ∀ k, k ≠ i → (entriesIn moves e options files world)[k]?
    = (entriesIn moves' e' options files world)[k]?
  errors : (convertIn moves e options files world).1.errors.filter (·.path != path)
    = (convertIn moves' e' options files world).1.errors.filter (·.path != path)
  results : ((convertIn moves e options files world).1.results.filter (·.path != path)).map
      Converted.withoutContent
    = ((convertIn moves' e' options files world).1.results.filter (·.path != path)).map
      Converted.withoutContent
  ends : ∀ start, ∃ more, Completes (start ++ more) e' options files world

variable {moves moves' : List Move} {e : Engine σ} {client : Client σ} {options : ResolvedOptions}
  {files : List Source} {world : σ} {habits habits' : Habits ν} {memory : σ → String → ν} {i : Nat}
  {p : Source}

theorem opened_cards (e : Engine σ) (options : ResolvedOptions) (files : List Source) (world : σ) :
    (opened e options files world).desks.map Hall.card
      = (lane e.threshold files .parallel).map fun f => (f.2, (⟨f.1, options, Summary.ofSources files,
        (sequentialRun e options files world).2.manifest⟩ : Job)) := by
  simp only [opened, Hall.opened, parallelJobs, List.map_map]
  rfl

namespace DifferAt

theorem path_ne (h : DifferAt i p e client files habits habits' memory) {k : Nat} {f : Source}
    (hf : files[k]? = some f) (hk : k ≠ i) : f.path ≠ p.path :=
  path_ne_of_index_ne h.paths hf h.file hk

theorem lanes (h : DifferAt i p e client files habits habits' memory) (options : ResolvedOptions)
    (world : σ) :
    SameLane (Services.SameMemory p.path memory) (sequentialRun e options files world)
      (sequentialRun (e.withClient client) options files world)
      (sequentialSteps e.services e.terms options (Summary.ofSources files)
        (lane e.threshold files .sequential) ⟨Manifest.empty, world⟩)
      (sequentialSteps (e.withClient client).services e.terms options (Summary.ofSources files)
        (lane e.threshold files .sequential) ⟨Manifest.empty, world⟩) := by
  refine runSequential_twins (fun f hf m => ?_) rfl fun _ _ => rfl
  have hfile := (mem_lane.1 hf).1
  have hindex : f.2 ≠ i := lane_disjoint (g := (p, i)) hf (mem_lane.2 ⟨h.file, h.parallel⟩)
  exact h.steady.twins_but h.steady' h.same (List.mem_of_getElem? hfile) (h.path_ne hfile hindex)

theorem cards (h : DifferAt i p e client files habits habits' memory) (moves moves' : List Move)
    (options : ResolvedOptions) (world : σ) :
    (hallAfter moves e options files world).desks.map Hall.card
      = (hallAfter moves' (e.withClient client) options files world).desks.map Hall.card := by
  rw [hallAfter_cards, hallAfter_cards, opened_cards, opened_cards, (h.lanes options world).manifest]
  rfl

theorem sameDesk (h : DifferAt i p e client files habits habits' memory)
    (hdone : Completes moves e options files world)
    (hdone' : Completes moves' (e.withClient client) options files world) {q q' : Desk}
    (hq : q ∈ (hallAfter moves e options files world).desks)
    (hq' : q' ∈ (hallAfter moves' (e.withClient client) options files world).desks)
    (hcard : Hall.card q = Hall.card q') (hindex : q.index ≠ i) :
    q.forget = q'.forget ∧
      (((opened e options files world).history e.services e.terms moves).filter
        (·.index == q.index)).map Desk.forget
        = (((opened (e.withClient client) options files world).history
          (e.withClient client).services e.terms moves').filter (·.index == q.index)).map
          Desk.forget := by
  have ha := hallAfter_apart h.steady h.paths moves options world
  have ha' := hallAfter_apart (e := e.withClient client) h.steady' h.paths moves' options world
  have hpath := h.path_ne (ha.keeps.desks q hq).file hindex
  refine ha.sameDesk ha' hdone hdone' hq hq' hcard ?_
  rw [(h.lanes options world).world _ hpath]
  exact h.same.sameAlone e.terms hpath _

theorem requests (h : DifferAt i p e client files habits habits' memory)
    (hdone : Completes moves e options files world)
    (hdone' : Completes moves' (e.withClient client) options files world) {k : Nat} (hk : k ≠ i) :
    requestsIn moves e options files world k
      = requestsIn moves' (e.withClient client) options files world k := by
  have hfilter (desks : List Desk) : (desks.filter (·.index == k)).map Desk.forget
      = (desks.map Desk.forget).filter (·.index == k) := by
    rw [List.filter_map]
    rfl
  simp only [requestsIn, stepsIn, List.filter_append]
  refine requests_of_forget e.terms ?_
  rw [List.map_append, List.map_append, hfilter, (h.lanes options world).steps, ← hfilter]
  refine congrArg₂ (· ++ ·) rfl ?_
  have hcards := h.cards moves moves' options world
  by_cases hin : k ∈ (hallAfter moves e options files world).desks.map (·.index)
  · obtain ⟨q, hq, rfl⟩ := List.mem_map.1 hin
    obtain ⟨q', hq', hcard⟩ := Hall.exists_partner hcards hq
    exact (h.sameDesk hdone hdone' hq hq' hcard hk).2
  · rw [(hallAfter_apart h.steady h.paths moves options world).no_steps hin,
      (hallAfter_apart (e := e.withClient client) h.steady' h.paths moves' options world).no_steps
        (Hall.indices_of_cards hcards ▸ hin)]

theorem entries (h : DifferAt i p e client files habits habits' memory)
    (hdone : Completes moves e options files world)
    (hdone' : Completes moves' (e.withClient client) options files world) {k : Nat} (hk : k ≠ i) :
    (entriesIn moves e options files world)[k]?
      = (entriesIn moves' (e.withClient client) options files world)[k]? := by
  by_cases hlt : k < files.length
  · have hdesk : ∃ q ∈ desksIn moves e options files world, q.index = k := exists_desk hlt
    obtain ⟨q, hq, rfl⟩ := hdesk
    have hpartner : ∃ q' ∈ desksIn moves' (e.withClient client) options files world,
        q.forget = q'.forget := by
      rcases List.mem_append.1 hq with hseq | hpar
      · have hmem := List.mem_map_of_mem (f := Desk.forget) hseq
        rw [(h.lanes options world).desks, List.mem_map] at hmem
        obtain ⟨q', hq', heq⟩ := hmem
        exact ⟨q', List.mem_append_left _ hq', heq.symm⟩
      · obtain ⟨q', hq', hcard⟩ := Hall.exists_partner (h.cards moves moves' options world) hpar
        exact ⟨q', List.mem_append_right _ hq', (h.sameDesk hdone hdone' hpar hq' hcard hk).1⟩
    obtain ⟨q', hq', heq⟩ := hpartner
    exact entry_of_forget hdone hdone' hq hq' heq
  · rw [List.getElem?_eq_none (entriesIn_length ▸ Nat.le_of_not_lt hlt),
      List.getElem?_eq_none (entriesIn_length ▸ Nat.le_of_not_lt hlt)]

end DifferAt

theorem entriesIn_path (moves : List Move) (e : Engine σ) (options : ResolvedOptions) (world : σ)
    (hfile : files[i]? = some p) {x : Entry}
    (hx : (entriesIn moves e options files world)[i]? = some x) : x.path = p.path := by
  have hfor : List.Forall₂ (Entry.IsFor options.direction) files
      (entriesIn moves e options files world) :=
    Book.entries_isFor (hallAfter_keeps moves e options files world).close
  obtain ⟨hi, hget⟩ := List.getElem?_eq_some_iff.1 hx
  obtain ⟨hi', rfl⟩ := List.getElem?_eq_some_iff.1 hfile
  have hentry := List.Forall₂.get hfor hi' hi
  simp only [List.get_eq_getElem, hget] at hentry
  cases x with
  | ok c => exact hentry.1
  | error f => exact hentry

theorem DifferAt.entries_sameBut (h : DifferAt i p e client files habits habits' memory)
    (hdone : Completes moves e options files world)
    (hdone' : Completes moves' (e.withClient client) options files world) :
    List.Forall₂ (Entry.SameBut p.path) (entriesIn moves e options files world)
      (entriesIn moves' (e.withClient client) options files world) := by
  refine List.forall₂_iff_get.2 ⟨entriesIn_length.trans entriesIn_length.symm, fun k hk hk' => ?_⟩
  by_cases hki : k = i
  · subst hki
    exact .inr ⟨entriesIn_path moves e options world h.file (List.getElem?_eq_getElem hk),
      entriesIn_path moves' _ options world h.file (List.getElem?_eq_getElem hk')⟩
  · have heq := h.entries hdone hdone' hki
    rw [List.getElem?_eq_getElem hk, List.getElem?_eq_getElem hk', Option.some.injEq] at heq
    exact .inl heq

/-- How an oracle treats one parallel file does not show in the others. -/
theorem parallel_isolated (h : DifferAt i p e client files habits habits' memory)
    (hdone : Completes moves e options files world)
    (hdone' : Completes moves' (e.withClient client) options files world) :
    SameOthers i p.path moves moves' e (e.withClient client) options files world where
  requests _ := h.requests hdone hdone'
  entries _ := h.entries hdone hdone'
  errors := Entry.failures_sameBut (h.entries_sameBut hdone hdone')
  results := Entry.results_sameBut (h.entries_sameBut hdone hdone') _ _ _
  ends start := exists_completes hdone'.opens start options world

def stumblingReply (request : Request) : Work Unit (Except OracleFault Reply) :=
  if request.messages[1]?.any fun m => m.content.toList.take 7 = "File: b".toList then
    .broken "out of memory"
  else .done (.ok ⟨"struct A {}", "", ""⟩)

def stumbling : Client Unit := .remote (.ofComplete "same" stumblingReply)

def stumblingHabits : Habits Unit :=
  { sameHabits with
    reply := fun path request n =>
      if path = "b.kt" then .broken "out of memory" else sameHabits.reply path request n }

theorem stumblingReply_eq {j : Job} (hj : j.source ∈ twoFiles) (terms : Terms) (d : Draft) :
    stumblingReply (d.request terms j) = if j.source.path = "b.kt" then .broken "out of memory"
      else .done (.ok ⟨"struct A {}", "", ""⟩) := by
  have hmessage : (d.request terms j).messages[1]? = some ⟨.user, Dialogue.fileRequest j, none⟩ := rfl
  have hsource : j.source = ⟨"a.kt", .kotlin, "class A"⟩
      ∨ j.source = ⟨"b.kt", .kotlin, "class B"⟩ := by
    simpa [twoFiles] using hj
  rw [stumblingReply, hmessage, Option.any_some]
  rcases hsource with h | h <;> simp [Dialogue.fileRequest, h]

theorem stumbling_answer {j : Job} (hj : j.source ∈ twoFiles) (d : Draft) (w : Unit) :
    ((sameAnswer.withClient stumbling).services.ask j.source.path (d.request sameAnswer.terms j)
      w).1.ending = stumblingHabits.reply j.source.path (d.request sameAnswer.terms j) () := by
  have hcall (request : Request) :
      (sameAnswer.withClient stumbling).services.ask j.source.path request w
        = (sameAnswer.withClient (.remote (.ofComplete "same" fun _ =>
          stumblingReply request))).services.ask j.source.path request w := rfl
  rw [hcall, stumblingReply_eq hj]
  by_cases hpath : j.source.path = "b.kt"
  · rw [if_pos hpath]
    exact (if_pos hpath).symm
  · rw [if_neg hpath]
    exact (if_neg hpath).symm

theorem stumbling_steady :
    (sameAnswer.withClient stumbling).services.Steady sameAnswer.terms twoFiles stumblingHabits
      fun _ _ => () :=
  ⟨fun _ d w hj => stumbling_answer hj d w, fun _ _ _ _ => Subsingleton.elim _ _,
    fun _ _ _ _ => rfl, fun _ _ _ _ => rfl⟩

theorem stumbling_differs :
    DifferAt 1 ⟨"b.kt", .kotlin, "class B"⟩ sameAnswer stumbling twoFiles sameHabits stumblingHabits
      fun _ _ => () where
  file := rfl
  parallel := by decide +kernel
  paths := by decide
  steady := sameAnswer_steady
  steady' := stumbling_steady
  same := ⟨fun _ hne => by simp [stumblingHabits, hne], fun _ _ => rfl, rfl⟩

theorem twoFiles_isolated :
    Completes braided sameAnswer {} twoFiles () ∧
      Completes braided (sameAnswer.withClient stumbling) {} twoFiles () ∧
      SameOthers 1 "b.kt" braided braided sameAnswer (sameAnswer.withClient stumbling) {}
        twoFiles () := by
  have hdone : Completes braided (sameAnswer.withClient stumbling) {} twoFiles () := by
    unfold Completes
    decide +kernel
  exact ⟨braided_completes, hdone, parallel_isolated stumbling_differs braided_completes hdone⟩

end Batch
end Crosswalk
