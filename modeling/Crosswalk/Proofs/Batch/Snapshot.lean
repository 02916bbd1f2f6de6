import Crosswalk.Proofs.Batch.History
import Crosswalk.Proofs.Conversion.Twins

namespace Crosswalk

variable {σ : Type}

namespace Desk

def forget (p : Desk) : Desk := { p with seat := p.seat.forget }

def asked? (terms : Terms) (p : Desk) : Option (Nat × Request) :=
  match p.seat with
  | .asking d _ => some (p.index, d.request terms p.job)
  | .queued | .checking _ _ _ _ | .settled _ => none

theorem asked?_forget (terms : Terms) (p : Desk) : p.forget.asked? terms = p.asked? terms := by
  obtain ⟨index, j, seat⟩ := p
  cases seat <;> rfl

end Desk

namespace Hall

variable {services : Services σ} {terms : Terms}

theorem atWork_forget (seat : Seat) : atWork seat.forget = atWork seat := by
  cases seat <;> rfl

theorem permitsAfter_forget (permits : Nat) (old new : Seat) :
    permitsAfter permits old.forget new.forget = permitsAfter permits old new := by
  simp only [permitsAfter, atWork_forget]

theorem ready?_forget {h h' : Hall σ} (hdesks : h.desks.map Desk.forget = h'.desks.map Desk.forget)
    (hpermits : h.permits = h'.permits) (i : Nat) :
    (h.ready? i).map Desk.forget = (h'.ready? i).map Desk.forget := by
  have hget := congrArg (·[i]?) hdesks
  simp only [List.getElem?_map] at hget
  have hkeep (p : Desk) (permits : Nat) :
      (p.seat.report?.isNone && (atWork p.seat || permits != 0))
        = (p.forget.seat.report?.isNone && (atWork p.forget.seat || permits != 0)) := by
    rw [Desk.forget, atWork_forget, Seat.report?_forget, Option.isNone_map]
  have hmap (g : Hall σ) : (g.ready? i).map Desk.forget = (g.desks[i]?.map Desk.forget).filter
      fun p => p.seat.report?.isNone && (atWork p.seat || g.permits != 0) := by
    cases hp : g.desks[i]? with
    | none => simp [ready?, hp]
    | some p =>
      simp only [ready?, hp, Option.map_some, Option.filter_some, hkeep p]
      split <;> rfl
  rw [hmap h, hmap h', hget, hpermits]

/-- The halls are the same but for their manifests and their books. -/
structure Alike (h h' : Hall σ) : Prop where
  desks : h.desks.map Desk.forget = h'.desks.map Desk.forget
  permits : h.permits = h'.permits
  world : h.shared.world = h'.shared.world

theorem collect_alike (h : Hall σ) (i : Nat) : (h.collect i).Alike h := by
  obtain heq | ⟨p, r, path, -, -, -, heq⟩ := collect_cases h i
  all_goals
    rw [heq]
    exact ⟨rfl, rfl, rfl⟩

theorem Alike.trans {h h' h'' : Hall σ} (ha : h.Alike h') (ha' : h'.Alike h'') : h.Alike h'' :=
  ⟨ha.desks.trans ha'.desks, ha.permits.trans ha'.permits, ha.world.trans ha'.world⟩

theorem Alike.symm {h h' : Hall σ} (ha : h.Alike h') : h'.Alike h :=
  ⟨ha.desks.symm, ha.permits.symm, ha.world.symm⟩

theorem Alike.move {h h' : Hall σ} (ha : h.Alike h') (services : Services σ) (terms : Terms)
    (m : Move) :
    (h.stepped? services terms m).map Desk.forget = (h'.stepped? services terms m).map Desk.forget ∧
      (h.move services terms m).Alike (h'.move services terms m) := by
  cases m with
  | collect i => exact ⟨rfl, (collect_alike h i).trans (ha.trans (collect_alike h' i).symm)⟩
  | work i =>
    have hready := ready?_forget ha.desks ha.permits i
    cases hp : h.ready? i with
    | none =>
      rw [hp, eq_comm, Option.map_none, Option.map_eq_none_iff] at hready
      simp only [stepped?, hp, hready, Hall.move, step_none hp, step_none hready]
      exact ⟨rfl, ha⟩
    | some p =>
      rw [hp, eq_comm, Option.map_some, Option.map_eq_some_iff] at hready
      obtain ⟨p', hp', heq⟩ := hready
      obtain ⟨index, j, seat⟩ := p
      obtain ⟨index', j', seat'⟩ := p'
      simp only [Desk.forget, Desk.mk.injEq] at heq
      obtain ⟨rfl, rfl, hseat⟩ := heq
      obtain ⟨hstep, hworld⟩ := Seat.step_twins (Services.twins_refl terms j' services) hseat.symm
        ha.world
      simp only [stepped?, hp, hp', Option.map_some, Hall.move, step_ready hp, step_ready hp']
      refine ⟨by simp only [Desk.forget, hstep], ?_, ?_, hworld⟩
      · simp only [worked, List.map_set, ha.desks, Desk.forget, hstep]
      · simp only [worked]
        rw [← permitsAfter_forget, ← hseat, hstep, permitsAfter_forget, ha.permits]

def tampered (h : Hall σ) (m : Manifest) : Hall σ := { h with shared := ⟨m, h.shared.world⟩ }

/-- The desks after all steps when the manifest is replaced before each move. -/
def disturbed (services : Services σ) (terms : Terms) : Hall σ → List (Manifest × Move) → List Desk
  | _, [] => []
  | h, (m, next) :: rest =>
    ((h.tampered m).stepped? services terms next).toList
      ++ disturbed services terms ((h.tampered m).move services terms next) rest

theorem Alike.disturbed {h h' : Hall σ} (ha : h.Alike h') (services : Services σ) (terms : Terms)
    (moves : List (Manifest × Move)) :
    (h.disturbed services terms moves).map Desk.forget
      = (h'.history services terms (moves.map (·.2))).map Desk.forget := by
  induction moves generalizing h h' with
  | nil => rfl
  | cons m moves ih =>
    obtain ⟨m, next⟩ := m
    have htampered : (h.tampered m).Alike h' := ⟨ha.desks, ha.permits, ha.world⟩
    obtain ⟨hstepped, hmove⟩ := htampered.move services terms next
    simp only [Hall.disturbed, history, List.map_cons, List.map_append]
    rw [ih hmove, ← Option.toList_map, ← Option.toList_map, hstepped]

theorem disturbed_asked (services : Services σ) (terms : Terms) (h : Hall σ)
    (moves : List (Manifest × Move)) :
    (h.disturbed services terms moves).filterMap (Desk.asked? terms)
      = (h.history services terms (moves.map (·.2))).filterMap (Desk.asked? terms) := by
  have halike : h.Alike h := ⟨rfl, rfl, rfl⟩
  have hforget := congrArg (List.filterMap (Desk.asked? terms))
    (halike.disturbed services terms moves)
  simpa only [List.filterMap_map, Function.comp_def, Desk.asked?_forget] using hforget

end Hall

namespace Batch

/-- What the files are told: each sequential file what those before it have written, all parallel
files what the sequential ones have written, and nothing more reaches their requests. -/
structure Told (moves : List Move) (e : Engine σ) (options : ResolvedOptions) (files : List Source)
    (world : σ) : Prop where
  order : (sequentialRun e options files world).1.map (fun p => (p.job.source, p.index))
    = lane e.threshold files .sequential
  sequential : ∀ k p, (sequentialRun e options files world).1[k]? = some p →
    p.job.snapshot = Manifest.empty.after ((sequentialRun e options files world).1.take k)
  parallel : ∀ p ∈ ((opened e options files world).follow e.services e.terms moves).desks,
    p.job.snapshot = Manifest.empty.after (sequentialRun e options files world).1
  siblings : ∀ tampering : List (Manifest × Move), tampering.map (·.2) = moves →
    ((opened e options files world).disturbed e.services e.terms tampering).filterMap
        (Desk.asked? e.terms)
      = ((opened e options files world).history e.services e.terms moves).filterMap
        (Desk.asked? e.terms)

theorem files_told (moves : List Move) (e : Engine σ) (options : ResolvedOptions)
    (files : List Source) (world : σ) : Told moves e options files world := by
  obtain ⟨hmanifest, hsnapshot⟩ := runSequential_manifest e.services e.terms options
    (Summary.ofSources files) (lane e.threshold files .sequential) ⟨Manifest.empty, world⟩
  refine ⟨?_, hsnapshot, fun p hp => ?_, fun tampering heq => ?_⟩
  · exact (runSequential_desks e.services e.terms options (Summary.ofSources files) _ _).1
  · rw [(follow_desk hp).2]
    exact hmanifest
  · rw [Hall.disturbed_asked, heq]

end Batch
end Crosswalk
