import Crosswalk.Proofs.Batch.Accounting
import Crosswalk.Proofs.Batch.Entries
import Crosswalk.Proofs.Names.Recording

namespace Crosswalk

variable {σ : Type}

namespace Manifest

theorem isDefined_recordResult (m : Manifest) (j : Job) (c? : Option Converted) (name : String) :
    (m.recordResult j c?).isDefined name = true ↔ m.isDefined name = true ∨
      ∃ c, c? = some c ∧ Rules.declaredType? c.content = some name := by
  cases c? with
  | none => simp [recordResult]
  | some c => simp [recordResult, isDefined_record]

theorem isDefined_after (m : Manifest) (desks : List Desk) (name : String) :
    (m.after desks).isDefined name = true ↔ m.isDefined name = true ∨
      ∃ p ∈ desks, ∃ c, p.seat.verified? = some c ∧ Rules.declaredType? c.content = some name := by
  induction desks generalizing m with
  | nil => simp [after]
  | cons p rest ih =>
    rw [after_cons, ih, isDefined_recordResult, or_assoc]
    simp only [List.mem_cons, exists_eq_or_imp]

theorem exports_recordResult {m : Manifest} {j : Job} {c? : Option Converted} {name path : String}
    (h : (m.recordResult j c?).exports.get? name = some path) :
    m.exports.get? name = some path ∨ ∃ c, c? = some c ∧ c.outputPath = path := by
  cases c? with
  | none => exact .inl h
  | some c =>
    simp only [recordResult, record_exports] at h
    rcases Option.or_eq_some_iff.1 h with hold | ⟨-, hnew⟩
    · exact .inl hold
    · split at hnew
      · exact .inr ⟨c, rfl, Option.some.inj hnew⟩
      · cases hnew

theorem exports_after {m : Manifest} {desks : List Desk} {name path : String}
    (h : (m.after desks).exports.get? name = some path) :
    m.exports.get? name = some path ∨
      ∃ p ∈ desks, ∃ c, p.seat.verified? = some c ∧ c.outputPath = path := by
  induction desks generalizing m with
  | nil => exact .inl h
  | cons p rest ih =>
    rcases ih h with hold | ⟨q, hq, hc⟩
    · rcases exports_recordResult hold with hold | hnew
      · exact .inl hold
      · exact .inr ⟨p, List.mem_cons_self, hnew⟩
    · exact .inr ⟨q, List.mem_cons_of_mem _ hq, hc⟩

end Manifest

theorem Desk.isVerified_iff {p : Desk} : p.isVerified = true ↔ ∃ c, p.seat.verified? = some c :=
  Option.isSome_iff_exists

theorem Desk.isVerified_open {p : Desk} (h : p.seat.report? = none) : p.isVerified = false := by
  rw [isVerified, Seat.verified?_open h]
  rfl

namespace Hall

variable {services : Services σ} {terms : Terms}

/-- The verified desks of the history so far are those that stand in the hall, each once. -/
structure Agrees (h : Hall σ) (past : List Desk) : Prop where
  indices : (h.desks.map (·.index)).Nodup
  once : ((past.filter Desk.isVerified).map (·.index)).Nodup
  same : ∀ p : Desk, p.isVerified = true → (p ∈ past ↔ p ∈ h.desks)

theorem Agrees.work {h : Hall σ} {past : List Desk} (ha : h.Agrees past) {i : Nat} {p : Desk}
    (hready : h.ready? i = some p) :
    (h.worked services terms i p).Agrees
      (past ++ [{ p with seat := (p.seat.step services terms p.job h.shared).1 }]) := by
  obtain ⟨hdesk, hopen, -⟩ := ready?_eq_some.1 hready
  have hmem := List.mem_of_getElem? hdesk
  -- A verified desk is over, and the one that took the step was not.
  have hother : ∀ q ∈ past, q.isVerified = true → q ≠ p := by
    rintro q - hq rfl
    rw [Desk.isVerified_open hopen] at hq
    cases hq
  have hindices : ((h.worked services terms i p).desks.map (·.index)).Nodup := by
    rw [worked_indices hdesk]
    exact ha.indices
  refine ⟨hindices, ?_, fun q hq => ⟨fun hpast => ?_, fun hin => ?_⟩⟩
  · rw [List.filter_append, List.map_append, List.nodup_append]
    refine ⟨ha.once, (List.nodup_singleton _).sublist (List.filter_sublist.map _), ?_⟩
    intro index hindex index' hindex' heq
    obtain ⟨q, hq, rfl⟩ := List.mem_map.1 hindex
    obtain ⟨q', hq', rfl⟩ := List.mem_map.1 hindex'
    obtain ⟨hqpast, hqverified⟩ := List.mem_filter.1 hq
    obtain rfl := List.mem_singleton.1 (List.mem_filter.1 hq').1
    exact hother q hqpast hqverified
      (List.inj_on_of_nodup_map ha.indices ((ha.same q hqverified).1 hqpast) hmem heq)
  · rcases List.mem_append.1 hpast with hpast | hnew
    · exact mem_worked_of_ne hdesk ((ha.same q hq).1 hpast) (hother q hpast hq)
    · exact List.mem_singleton.1 hnew ▸ worked_self hdesk
  · rw [List.mem_append, List.mem_singleton]
    exact (mem_worked hin).imp (ha.same q hq).2 id

theorem history_agrees {h : Hall σ} (hindices : (h.desks.map (·.index)).Nodup)
    (hfresh : ∀ p ∈ h.desks, p.isVerified = false) (moves : List Move) :
    (h.follow services terms moves).Agrees (h.history services terms moves) := by
  refine history_induct (P := Agrees) (fun _ _ _ _ ha hready => ha.work hready)
    (fun _ _ _ _ _ _ ha _ _ _ => ⟨ha.indices, ha.once, ha.same⟩) ⟨hindices, by simp, fun p hp => ?_⟩
    moves
  simp only [List.not_mem_nil, false_iff]
  intro hin
  rw [hfresh p hin] at hp
  cases hp

end Hall

namespace Batch

/-- The desks that have written into the manifest, in the order in which they have: the sequential
ones, then the parallel ones, each at the step that verified it. -/
def writers (moves : List Move) (e : Engine σ) (options : ResolvedOptions) (files : List Source)
    (world : σ) : List Desk :=
  (sequentialRun e options files world).1.filter Desk.isVerified
    ++ ((opened e options files world).history e.services e.terms moves).filter Desk.isVerified

variable {moves : List Move} {e : Engine σ} {options : ResolvedOptions} {files : List Source}
  {world : σ}

theorem hallAfter_manifest (moves : List Move) (e : Engine σ) (options : ResolvedOptions)
    (files : List Source) (world : σ) :
    (hallAfter moves e options files world).shared.manifest
      = Manifest.empty.after (writers moves e options files world) := by
  have hseq : (opened e options files world).shared.manifest
      = Manifest.empty.after (sequentialRun e options files world).1 :=
    (runSequential_manifest e.services e.terms options (Summary.ofSources files) _ _).1
  rw [writers, Manifest.after_append, Manifest.after_filter, Manifest.after_filter, ← hseq]
  exact Hall.follow_manifest (opened e options files world) moves

theorem opened_agrees (moves : List Move) (e : Engine σ) (options : ResolvedOptions)
    (files : List Source) (world : σ) :
    (hallAfter moves e options files world).Agrees
      ((opened e options files world).history e.services e.terms moves) := by
  refine Hall.history_agrees (opened_keeps e options files world).indices (fun p hp => ?_) moves
  exact Desk.isVerified_open (by rw [(opened_desk hp).2.1]; rfl)

theorem mem_writers {p : Desk} :
    p ∈ writers moves e options files world ↔
      p ∈ desksIn moves e options files world ∧ p.isVerified = true := by
  simp only [writers, desksIn, List.mem_append, List.mem_filter, ← or_and_right]
  refine and_congr_left fun hp => or_congr_right ?_
  exact (opened_agrees moves e options files world).same p hp

theorem writers_nodup : ((writers moves e options files world).map (·.index)).Nodup := by
  rw [writers, List.map_append, List.nodup_append]
  refine ⟨?_, (opened_agrees moves e options files world).once, ?_⟩
  · have hseq : ((sequentialRun e options files world).1.map (·.index)).Nodup := by
      rw [sequentialRun_indices]
      exact lane_nodup ..
    exact hseq.sublist (List.filter_sublist.map _)
  · intro index hindex index' hindex' heq
    obtain ⟨p, hp, rfl⟩ := List.mem_map.1 hindex
    obtain ⟨q, hq, rfl⟩ := List.mem_map.1 hindex'
    obtain ⟨hqpast, hqverified⟩ := List.mem_filter.1 hq
    have hq := ((opened_agrees moves e options files world).same q hqverified).1 hqpast
    exact lane_disjoint (sequentialRun_desk (List.mem_filter.1 hp).1).1 (follow_desk hq).1 heq

theorem verified_entry (hdone : Completes moves e options files world) {i : Nat} {c : Converted} :
    (entriesIn moves e options files world)[i]? = some (.ok c) ∧ c.verified = true ↔
      ∃ p ∈ writers moves e options files world, p.index = i ∧ p.seat.verified? = some c := by
  constructor
  · rintro ⟨hentry, hc⟩
    obtain ⟨p, hp, rfl, r, hr, hsettle⟩ := desk_of_entry hdone hentry
    cases r with
    | escaped fault | broken reason => cases hsettle
    | converted o =>
      obtain rfl : c = o.result := by cases hsettle; rfl
      have hverified : p.seat.verified? = some o.result := by
        rw [hr]
        exact if_pos hc
      exact ⟨p, mem_writers.2 ⟨hp, Desk.isVerified_iff.2 ⟨_, hverified⟩⟩, rfl, hverified⟩
  · rintro ⟨p, hp, rfl, hverified⟩
    obtain ⟨r, hr, hentry⟩ := entry_of_desk hdone (mem_writers.1 hp).1
    rw [hr] at hverified
    cases r with
    | escaped fault | broken reason => cases hverified
    | converted o =>
      simp only [Seat.verified?, Report.verified?, Outcome.verified?] at hverified
      split at hverified
      · next hc =>
        obtain rfl := Option.some.inj hverified
        exact ⟨hentry, hc⟩
      · cases hverified

structure Traced (moves : List Move) (e : Engine σ) (options : ResolvedOptions) (files : List Source)
    (world : σ) : Prop where
  manifest : (convertIn moves e options files world).1.manifest
    = Manifest.empty.after (writers moves e options files world)
  order : ((sequentialRun e options files world).1.map (·.index)).Pairwise (· < ·)
  once : ((writers moves e options files world).map (·.index)).Nodup
  own : ∀ p ∈ writers moves e options files world, files[p.index]? = some p.job.source
  verified : ∀ (i : Nat) (c : Converted),
    (entriesIn moves e options files world)[i]? = some (.ok c) ∧ c.verified = true ↔
      ∃ p ∈ writers moves e options files world, p.index = i ∧ p.seat.verified? = some c
  /-- A sequential file that is not verified leaves the manifest as it was. -/
  sequentialSilent : ∀ (j : Job) (s : Shared σ), (j.run e.services e.terms s).1.verified? = none →
    (j.run e.services e.terms s).2.manifest = s.manifest
  parallelSilent : ∀ (before : List Move) (m : Move) (later : List Move) (p : Desk),
    moves = before ++ m :: later →
    (hallAfter before e options files world).stepped? e.services e.terms m = some p →
    (∀ c, (entriesIn moves e options files world)[p.index]? = some (.ok c) → c.verified = false) →
    (hallAfter (before ++ [m]) e options files world).shared.manifest
      = (hallAfter before e options files world).shared.manifest
  definitions : ∀ name, (convertIn moves e options files world).1.manifest.isDefined name = true ↔
    ∃ c, .ok c ∈ entriesIn moves e options files world ∧ c.verified = true ∧
      Rules.declaredType? c.content = some name
  exports : ∀ name path,
    (convertIn moves e options files world).1.manifest.exports.get? name = some path →
      ∃ c ∈ (convertIn moves e options files world).1.results, c.verified = true ∧ c.outputPath = path

theorem hallAfter_silent (hdone : Completes moves e options files world) {before later : List Move}
    {m : Move} {p : Desk} (hmoves : moves = before ++ m :: later)
    (hstep : (hallAfter before e options files world).stepped? e.services e.terms m = some p)
    (hentry : ∀ c, (entriesIn moves e options files world)[p.index]? = some (.ok c) →
      c.verified = false) :
    (hallAfter (before ++ [m]) e options files world).shared.manifest
      = (hallAfter before e options files world).shared.manifest := by
  have hhistory (rest : List Move) :
      (opened e options files world).history e.services e.terms (before ++ m :: rest)
        = (opened e options files world).history e.services e.terms before ++ p ::
          ((hallAfter before e options files world).move e.services e.terms m).history
            e.services e.terms rest := by
    unfold hallAfter at hstep
    rw [Hall.history_append, Hall.history, hstep]
    rfl
  have hnone : p.seat.verified? = none := by
    cases hverified : p.seat.verified? with
    | none => rfl
    | some c =>
      have hp : p ∈ writers moves e options files world := by
        refine List.mem_append_right _ (List.mem_filter.2 ⟨?_, Desk.isVerified_iff.2 ⟨c, hverified⟩⟩)
        rw [hmoves, hhistory]
        exact List.mem_append_right _ List.mem_cons_self
      obtain ⟨hc, hyes⟩ := (verified_entry hdone).2 ⟨p, hp, rfl, hverified⟩
      rw [hentry c hc] at hyes
      cases hyes
  have hfollow (ms : List Move) : (hallAfter ms e options files world).shared.manifest
      = (opened e options files world).shared.manifest.after
        ((opened e options files world).history e.services e.terms ms) :=
    Hall.follow_manifest (opened e options files world) ms
  rw [hfollow, hfollow, hhistory, Manifest.after_append, Manifest.after_cons, hnone]
  rfl

/-- In whatever order the parallel files are worked on and collected, the manifest is made of one
record for each verified file, and holds nothing else. -/
theorem convertIn_traced (hdone : Completes moves e options files world) :
    Traced moves e options files world := by
  have hwritten {c : Converted} {p : Desk} (hp : p ∈ writers moves e options files world)
      (hc : p.seat.verified? = some c) :
      .ok c ∈ entriesIn moves e options files world ∧ c.verified = true := by
    obtain ⟨hentry, hyes⟩ := (verified_entry hdone).2 ⟨p, hp, rfl, hc⟩
    exact ⟨List.mem_of_getElem? hentry, hyes⟩
  have hmanifest : (convertIn moves e options files world).1.manifest
      = Manifest.empty.after (writers moves e options files world) :=
    hallAfter_manifest moves e options files world
  refine {
    manifest := hmanifest
    order := by rw [sequentialRun_indices]; exact lane_ascending ..
    once := writers_nodup
    own := fun p hp => (desksIn_belongs (mem_writers.1 hp).1).file
    verified := fun i c => verified_entry hdone
    sequentialSilent := fun j s hnone => by rw [Job.run_manifest, hnone]; rfl
    parallelSilent := fun _ _ _ _ => hallAfter_silent hdone
    definitions := fun name => ?_
    exports := fun name path hpath => ?_ }
  · rw [hmanifest, Manifest.isDefined_after]
    constructor
    · rintro (hempty | ⟨p, hp, c, hc, hname⟩)
      · cases hempty
      · exact ⟨c, (hwritten hp hc).1, (hwritten hp hc).2, hname⟩
    · rintro ⟨c, hentry, hyes, hname⟩
      obtain ⟨i, hi⟩ := List.getElem?_of_mem hentry
      obtain ⟨p, hp, -, hc⟩ := (verified_entry hdone).1 ⟨hi, hyes⟩
      exact .inr ⟨p, hp, c, hc, hname⟩
  · rw [hmanifest] at hpath
    rcases Manifest.exports_after hpath with hempty | ⟨p, hp, c, hc, rfl⟩
    · cases hempty
    · obtain ⟨hentry, hyes⟩ := hwritten hp hc
      obtain ⟨content, heq⟩ := Unified.file_keeps options.direction
        (hallAfter moves e options files world).shared.manifest c
      refine ⟨{ c with content }, ?_, hyes, rfl⟩
      rw [convertIn_results, Unified.files, ← heq]
      exact List.mem_map_of_mem (List.mem_filterMap.2 ⟨_, hentry, rfl⟩)

def twoFiles : List Source := [⟨"a.kt", .kotlin, "class A"⟩, ⟨"b.kt", .kotlin, "class B"⟩]

def sameAnswer : Engine Unit where
  client := .remote (.ofComplete "same" fun _ => .done (.ok ⟨"struct A {}", "", ""⟩))
  checker := .acceptAll

/-- Both files are at work at the same time, and the second one is verified first. -/
def braided : List Move :=
  [.work 0, .work 1, .work 1, .work 0, .work 1, .work 0, .collect 0, .collect 1]

theorem braided_completes : Completes braided sameAnswer {} twoFiles () := by
  unfold Completes
  decide +kernel

theorem twoFiles_traced :
    Completes braided sameAnswer {} twoFiles () ∧ Traced braided sameAnswer {} twoFiles () ∧
      (writers braided sameAnswer {} twoFiles ()).map (·.index) = [1, 0] :=
  ⟨braided_completes, convertIn_traced braided_completes, by decide +kernel⟩

end Batch
end Crosswalk
