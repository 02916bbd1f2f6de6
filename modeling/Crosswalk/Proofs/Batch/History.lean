import Crosswalk.Proofs.Batch.Lanes
import Crosswalk.Proofs.Batch.Moves
import Crosswalk.Proofs.Conversion.Writing

namespace Crosswalk

variable {σ : Type}

namespace Manifest

def after (m : Manifest) (desks : List Desk) : Manifest :=
  desks.foldl (fun m p => m.recordResult p.job p.seat.verified?) m

theorem after_append (m : Manifest) (desks desks' : List Desk) :
    m.after (desks ++ desks') = (m.after desks).after desks' := List.foldl_append

theorem after_cons (m : Manifest) (p : Desk) (desks : List Desk) :
    m.after (p :: desks) = (m.recordResult p.job p.seat.verified?).after desks := rfl

end Manifest

def Desk.isVerified (p : Desk) : Bool := p.seat.verified?.isSome

theorem Manifest.after_filter (m : Manifest) (desks : List Desk) :
    m.after (desks.filter Desk.isVerified) = m.after desks := by
  induction desks generalizing m with
  | nil => rfl
  | cons p rest ih =>
    rw [after_cons]
    cases hp : p.seat.verified? with
    | some c =>
      rw [List.filter_cons_of_pos (by simp [Desk.isVerified, hp]), after_cons, hp]
      exact ih _
    | none =>
      rw [List.filter_cons_of_neg (by simp [Desk.isVerified, hp])]
      exact ih _

namespace Hall

variable {services : Services σ} {terms : Terms}

def stepped? (services : Services σ) (terms : Terms) (h : Hall σ) : Move → Option Desk
  | .work position => (h.ready? position).map fun p =>
    { p with seat := (p.seat.step services terms p.job h.shared).1 }
  | .collect _ => none

/-- The desks after all steps, in the order of the steps. -/
def history (services : Services σ) (terms : Terms) : Hall σ → List Move → List Desk
  | _, [] => []
  | h, m :: moves =>
    (h.stepped? services terms m).toList ++ history services terms (h.move services terms m) moves

theorem Idle.history {h : Hall σ} (hi : h.Idle) (moves : List Move) :
    h.history services terms moves = [] := by
  induction moves with
  | nil => rfl
  | cons m moves ih =>
    have hstepped : h.stepped? services terms m = none := by
      cases m with
      | work i => rw [stepped?, hi.steps i, Option.map_none]
      | collect i => rfl
    rw [Hall.history, hstepped, hi.move, ih]
    rfl

theorem history_append (h : Hall σ) (moves moves' : List Move) :
    h.history services terms (moves ++ moves')
      = h.history services terms moves
        ++ (h.follow services terms moves).history services terms moves' := by
  induction moves generalizing h with
  | nil => rfl
  | cons m moves ih =>
    rw [List.cons_append, history, ih, history, List.append_assoc]
    rfl

theorem history_induct {P : Hall σ → List Desk → Prop}
    (work : ∀ h past i p, P h past → h.ready? i = some p →
      P (h.worked services terms i p)
        (past ++ [{ p with seat := (p.seat.step services terms p.job h.shared).1 }]))
    (collect : ∀ h past (i : Nat) (p : Desk) r path, P h past → h.desks[i]? = some p →
      p.seat = .settled r → (p.index, path) ∈ h.pending → P (h.collected p r) past)
    {h : Hall σ} (hP : P h []) (moves : List Move) :
    P (h.follow services terms moves) (h.history services terms moves) := by
  have hgo : ∀ past, P h past →
      P (h.follow services terms moves) (past ++ h.history services terms moves) := by
    clear hP
    induction moves generalizing h with
    | nil =>
      intro past hP
      rwa [history, List.append_nil]
    | cons m moves ih =>
      intro past hP
      rw [history, ← List.append_assoc]
      refine ih _ ?_
      cases m with
      | work i =>
        cases hi : h.ready? i with
        | none => simpa [move, stepped?, step_none hi, hi] using hP
        | some p => simpa [move, stepped?, step_ready hi, hi] using work h past i p hP hi
      | collect i =>
        obtain heq | ⟨p, r, path, hp, hr, hpath, heq⟩ := collect_cases h i
        · simpa [move, stepped?, heq] using hP
        · simpa [move, stepped?, heq] using collect h past i p r path hP hp hr hpath
  exact hgo [] hP

/-- At every moment of every run the manifest is what the steps so far have written. -/
theorem follow_manifest (h : Hall σ) (moves : List Move) :
    (h.follow services terms moves).shared.manifest
      = h.shared.manifest.after (h.history services terms moves) := by
  refine history_induct (P := fun h' past => h'.shared.manifest = h.shared.manifest.after past)
    (fun h' past i p heq hp => ?_) (fun _ _ _ _ _ _ heq _ _ _ => heq) rfl moves
  obtain ⟨-, hopen, -⟩ := ready?_eq_some.1 hp
  rw [Manifest.after_append, ← heq]
  exact Seat.step_manifest services terms p.job h'.shared hopen

end Hall

namespace Batch

/-- The manifest behind the sequential files is what they have written, and each of them was told
what those before it had. -/
theorem runSequential_manifest (services : Services σ) (terms : Terms) (options : ResolvedOptions)
    (summary : Summary) (list : List (Source × Nat)) (s : Shared σ) :
    (runSequential services terms options summary list s).2.manifest
        = s.manifest.after (runSequential services terms options summary list s).1 ∧
      ∀ k p, (runSequential services terms options summary list s).1[k]? = some p →
        p.job.snapshot
          = s.manifest.after ((runSequential services terms options summary list s).1.take k) := by
  induction list generalizing s with
  | nil => exact ⟨rfl, by simp [runSequential]⟩
  | cons f rest ih =>
    obtain ⟨file, index⟩ := f
    obtain ⟨hmanifest, hsnapshot⟩ :=
      ih ((⟨file, options, summary, s.manifest⟩ : Job).run services terms s).2
    rw [Job.run_manifest] at hmanifest hsnapshot
    refine ⟨hmanifest, fun k p hp => ?_⟩
    cases k with
    | zero =>
      obtain rfl := Option.some.inj hp
      rfl
    | succ k => exact hsnapshot k p hp

theorem follow_desk {services : Services σ} {terms : Terms} {e : Engine σ} {options : ResolvedOptions}
    {files : List Source} {world : σ} {moves : List Move} {p : Desk}
    (hp : p ∈ ((opened e options files world).follow services terms moves).desks) :
    (p.job.source, p.index) ∈ lane e.threshold files .parallel ∧
      p.job = ⟨p.job.source, options, Summary.ofSources files,
        (sequentialRun e options files world).2.manifest⟩ := by
  have hcard := List.mem_map_of_mem (f := Hall.card) hp
  rw [Hall.follow_cards, List.mem_map] at hcard
  obtain ⟨q, hq, heq⟩ := hcard
  obtain ⟨hindex, hjob⟩ := Prod.mk.inj heq
  obtain ⟨hlane, -, hopened⟩ := opened_desk hq
  rw [← hjob, ← hindex]
  exact ⟨hlane, hopened⟩

end Batch
end Crosswalk
