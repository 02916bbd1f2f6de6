import Mathlib
import Crosswalk.Oracle.Chain
import Crosswalk.Proofs.Oracle.Patience
import Crosswalk.Proofs.Work

namespace Crosswalk

open Work

variable {σ : Type}

namespace Work

theorem call_late_waits {α : Type} {w : Work σ α} {limit : Nat} {late : α} {s : σ}
    (h : (w.ending? s).1 = none ∨ limit < w.elapsed s) :
    (w.call limit late s).1.waits.sum = limit := by
  induction w generalizing s limit with
  | done a => simp [ending?, elapsed] at h
  | broken reason => simp [ending?, elapsed] at h
  | never => exact Nat.add_zero limit
  | wait ms rest ih =>
    by_cases hms : ms ≤ limit
    · have hrest : (rest.ending? s).1 = none ∨ limit - ms < rest.elapsed s := by
        refine h.imp id fun ht => ?_
        rw [elapsed] at ht
        omega
      rw [call_wait hms, List.sum_cons, ih hrest]
      omega
    · rw [call_wait_late (by omega)]
      exact Nat.add_zero limit
  | look next ih => exact ih s h
  | change world rest ih => exact ih h

end Work

namespace Provider

/-- A turn of a provider, from one world to another, with the time it takes: the provider ends in
time, or its turn is over at its limit. -/
inductive Turn (request : Request) (p : Provider σ) (s : σ) :
    Except OracleFault Reply → σ → Nat → Prop
  | inTime {result : Except OracleFault Reply} {s' : σ}
      (hends : (p.oracle.complete request).ending? s = (some (.finished result), s'))
      (htime : ∀ limit, p.limit = some limit → (p.oracle.complete request).elapsed s ≤ limit) :
      Turn request p s result s' ((p.oracle.complete request).elapsed s)
  | late {limit : Nat} (hlimit : p.limit = some limit)
      (hlate : ((p.oracle.complete request).ending? s).1 = none ∨
        limit < (p.oracle.complete request).elapsed s) :
      Turn request p s (.error (.timeout (limit / 1000)))
        ((p.bounded (p.oracle.complete request)).ending? s).2 limit

variable {request : Request} {p : Provider σ} {s s' : σ} {result : Except OracleFault Reply}
  {time : Nat}

theorem Turn.bounded (h : p.Turn request s result s' time) :
    (p.bounded (p.oracle.complete request)).ending? s = (some (.finished result), s') ∧
      (p.bounded (p.oracle.complete request)).elapsed s = time := by
  cases h with
  | inTime hends htime =>
    cases hlimit : p.limit with
    | none => simp only [Provider.bounded, hlimit, hends, and_self]
    | some limit => exact bounded_in_time hlimit hends (htime limit hlimit)
  | @late limit hlimit hlate =>
    rw [bounded_of_limit hlimit, ending?_within, elapsed_within, call_late hlate,
      call_late_waits hlate]
    exact ⟨rfl, rfl⟩

end Provider

namespace Chain

/-- Providers that have their turns one after the other and fail, each in the world that the turn
before it has left, with their names and faults and the time of all turns. -/
inductive Passed (request : Request) :
    List (Provider σ) → σ → List (String × OracleFault) → σ → Nat → Prop
  | nil (s : σ) : Passed request [] s [] s 0
  | cons {p : Provider σ} {rest : List (Provider σ)} {s s' s'' : σ} {fault : OracleFault}
      {faults : List (String × OracleFault)} {time time' : Nat}
      (hturn : p.Turn request s (.error fault) s' time)
      (hrest : Passed request rest s' faults s'' time') :
      Passed request (p :: rest) s ((p.name, fault) :: faults) s'' (time + time')

def Notes (request : Request) (providers : List (Provider σ)) (calls : σ → List String) : Prop :=
  ∀ p ∈ providers, ∀ s result s' time, p.Turn request s result s' time →
    calls s' = calls s ++ [p.name]

variable {request : Request} {s s' : σ} {faults : List (String × OracleFault)} {time : Nat}

theorem Passed.firstAnswer {before : List (Provider σ)} (h : Passed request before s faults s' time)
    (rest : List (Provider σ)) (earlier : List (String × OracleFault)) :
    (firstAnswer (·.oracle.complete request) earlier (before ++ rest)).ending? s
        = (firstAnswer (·.oracle.complete request) (earlier ++ faults) rest).ending? s' ∧
      (firstAnswer (·.oracle.complete request) earlier (before ++ rest)).elapsed s
        = time + (firstAnswer (·.oracle.complete request) (earlier ++ faults) rest).elapsed s' := by
  induction h generalizing earlier with
  | nil s => simp
  | @cons p before s s' s'' fault faults time time' hturn hrest ih =>
    obtain ⟨hends, helapsed⟩ := hturn.bounded
    obtain ⟨hrestEnds, hrestElapsed⟩ := ih (earlier ++ [(p.name, fault)])
    have hfaults : earlier ++ [(p.name, fault)] ++ faults = earlier ++ (p.name, fault) :: faults :=
      List.append_assoc ..
    rw [hfaults] at hrestEnds hrestElapsed
    rw [List.cons_append]
    constructor
    · rw [firstAnswer_passes (·.oracle.complete request) earlier _ hends, hrestEnds]
    · rw [firstAnswer_passes_elapsed (·.oracle.complete request) earlier _ hends, helapsed,
        hrestElapsed, Nat.add_assoc]

theorem Passed.calls {before : List (Provider σ)} (h : Passed request before s faults s' time)
    {calls : σ → List String} (hnotes : Notes request before calls) :
    calls s' = calls s ++ before.map (·.name) := by
  induction h with
  | nil s => exact (List.append_nil _).symm
  | @cons p before s s' s'' fault faults time time' hturn hrest ih =>
    rw [ih fun q hq => hnotes q (List.mem_cons_of_mem _ hq),
      hnotes p List.mem_cons_self _ _ _ _ hturn, List.append_assoc]
    rfl

theorem Passed.snoc {before : List (Provider σ)} {p : Provider σ} {fault : OracleFault} {s'' : σ}
    {time' : Nat} (h : Passed request before s faults s' time)
    (hturn : p.Turn request s' (.error fault) s'' time') :
    Passed request (before ++ [p]) s (faults ++ [(p.name, fault)]) s'' (time + time') := by
  induction h with
  | nil s => simpa using Passed.cons hturn (.nil s'')
  | cons hfirst hrest ih =>
    rw [Nat.add_assoc]
    exact .cons hfirst (ih hturn)

/-- What the faults of all providers come to: the first one that is not of transport, and without
such a fault a note of all of them. -/
inductive Combines (faults : List (String × OracleFault)) : OracleFault → Prop
  | first {before after : List (String × OracleFault)} {name : String} {fault : OracleFault}
      (hfaults : faults = before ++ (name, fault) :: after)
      (hbefore : ∀ f ∈ before, f.2.isTransport = true) (hfault : fault.isTransport = false) :
      Combines faults fault
  | unreachable (hall : ∀ f ∈ faults, f.2.isTransport = true) :
      Combines faults (.unreachable ("all providers failed ("
        ++ "; ".intercalate (faults.map fun f => f.1 ++ ": " ++ f.2.message) ++ ")"))

theorem combined_combines (faults : List (String × OracleFault)) :
    Combines faults (combined faults) := by
  rw [combined]
  split
  · next name fault hfind =>
    obtain ⟨hfault, before, after, hfaults, hbefore⟩ := List.find?_eq_some_iff_append.1 hfind
    exact .first hfaults (by simpa using hbefore) (by simpa using hfault)
  · next hfind => exact .unreachable (by simpa using hfind)

theorem Combines.isTransport_iff {fault : OracleFault} (h : Combines faults fault) :
    fault.isTransport = true ↔ ∀ f ∈ faults, f.2.isTransport = true := by
  cases h with
  | @first before after name fault hfaults hbefore hfault =>
    subst hfaults
    rw [hfault]
    refine ⟨fun h => absurd h Bool.false_ne_true, fun hall => ?_⟩
    have hhere : fault.isTransport = true := hall (name, fault) (by simp)
    rwa [hfault] at hhere
  | unreachable hall => exact ⟨fun _ => hall, fun _ => rfl⟩

/-- How a call of a chain ends: with the answer of the first provider that answers in its turn,
without a turn for any later one, or, after a turn for each, with what their faults come to. -/
inductive Outcome (c : Chain σ) (request : Request) (s : σ) : Prop
  | answered {before after : List (Provider σ)} {p : Provider σ}
      {faults : List (String × OracleFault)} {reply : Reply} {s₁ s₂ : σ} {time time' : Nat}
      (hproviders : c.providers = before ++ p :: after)
      (hpassed : Passed request before s faults s₁ time)
      (hturn : p.Turn request s₁ (.ok reply) s₂ time')
      (hends : (c.oracle.complete request).ending? s = (some (.finished (.ok reply)), s₂))
      (helapsed : (c.oracle.complete request).elapsed s = time + time')
      (hcalls : ∀ calls, Notes request c.providers calls →
        calls s₂ = calls s ++ (before ++ [p]).map (·.name))
  | failed {faults : List (String × OracleFault)} {fault : OracleFault} {s₁ : σ} {time : Nat}
      (hpassed : Passed request c.providers s faults s₁ time)
      (hends : (c.oracle.complete request).ending? s = (some (.finished (.error fault)), s₁))
      (helapsed : (c.oracle.complete request).elapsed s = time)
      (hcalls : ∀ calls, Notes request c.providers calls → calls s₁ = calls s ++ c.names)
      (hcombines : Combines faults fault)
      (htransport : fault.isTransport = true ↔ ∀ f ∈ faults, f.2.isTransport = true)

theorem exists_passed {providers rest before : List (Provider σ)} (hall : providers = before ++ rest)
    (hpassed : Passed request before s faults s' time)
    (hturns : ∀ before p after faults s₁ time, providers = before ++ p :: after →
      Passed request before s faults s₁ time →
        ∃ result s₂ time', p.Turn request s₁ result s₂ time') :
    (∃ before p after faults s₁ time reply s₂ time', providers = before ++ p :: after ∧
        Passed request before s faults s₁ time ∧ p.Turn request s₁ (.ok reply) s₂ time') ∨
      ∃ faults s₁ time, Passed request providers s faults s₁ time := by
  induction rest generalizing before faults s' time with
  | nil =>
    rw [List.append_nil] at hall
    exact .inr ⟨faults, s', time, hall ▸ hpassed⟩
  | cons p rest ih =>
    obtain ⟨result, s'', time', hturn⟩ := hturns before p rest faults s' time hall hpassed
    cases result with
    | ok reply =>
      exact .inl ⟨before, p, rest, faults, s', time, reply, s'', time', hall, hpassed, hturn⟩
    | error fault => exact ih (by simpa using hall) (hpassed.snoc hturn)

/-- A chain whose providers each answer, fail or outlast their limit when their turn comes answers
with the first of them that does, unchanged, and asks nobody behind it; without an answer it fails
with the first fault that is not of transport, or with a note of all faults in order. -/
theorem complete_turns (c : Chain σ) (request : Request) (s : σ)
    (hturns : ∀ before p after faults s₁ time, c.providers = before ++ p :: after →
      Passed request before s faults s₁ time →
        ∃ result s₂ time', p.Turn request s₁ result s₂ time') : c.Outcome request s := by
  have hcomplete : c.oracle.complete request
      = firstAnswer (·.oracle.complete request) [] c.providers := rfl
  obtain ⟨before, p, after, faults, s₁, time, reply, s₂, time', hproviders, hpassed, hturn⟩ |
    ⟨faults, s₁, time, hpassed⟩ := exists_passed (List.nil_append c.providers).symm (.nil s) hturns
  · obtain ⟨hends, helapsed⟩ := hpassed.firstAnswer (p :: after) []
    obtain ⟨hturnEnds, hturnElapsed⟩ := hturn.bounded
    obtain ⟨hanswer, hanswerElapsed⟩ :=
      firstAnswer_answers (·.oracle.complete request) ([] ++ faults) after hturnEnds
    refine .answered hproviders hpassed hturn ?_ ?_ fun calls hnotes => ?_
    · rw [hcomplete, hproviders, hends, hanswer]
    · rw [hcomplete, hproviders, helapsed, hanswerElapsed, hturnElapsed]
    · rw [hproviders] at hnotes
      rw [hnotes p (by simp) _ _ _ _ hturn,
        hpassed.calls fun q hq => hnotes q (List.mem_append_left _ hq), List.map_append,
        List.append_assoc]
      rfl
  · obtain ⟨hends, helapsed⟩ := hpassed.firstAnswer [] []
    rw [List.append_nil] at hends helapsed
    have hcombines := combined_combines faults
    exact .failed hpassed (by rw [hcomplete, hends]; rfl) (by rw [hcomplete, helapsed]; rfl)
      (fun calls hnotes => hpassed.calls hnotes) hcombines hcombines.isTransport_iff

/-- Whoever is called notes its name. The first provider hangs, the second one refuses, the third one
answers just in time, and nobody comes to the fourth. -/
def noting : Chain (List String) where
  first := ⟨"a", .ofComplete "a" fun _ => .look fun s => .change (s ++ ["a"]) .never, some 2000⟩
  others := [
    ⟨"b", .ofComplete "b" fun _ => .look fun s => .change (s ++ ["b"])
      (.done (.error (.rejected 400 "no"))), some 2000⟩,
    ⟨"c", .ofComplete "c" fun _ => .look fun s => .change (s ++ ["c"])
      (.wait 2000 (.done (.ok ⟨"struct C", "m", "c"⟩))), some 2000⟩,
    ⟨"d", .ofComplete "d" fun _ => .look fun s => .change (s ++ ["d"])
      (.done (.ok ⟨"struct D", "m", "d"⟩)), none⟩]

theorem noting_turn : ∀ p ∈ noting.providers, ∀ s, ∃ result s' time,
    p.Turn ⟨[], {}⟩ s result s' time := by
  intro p hp s
  have htime (time : Nat) (h : time ≤ 2000) (limit : Nat) (hlimit : some 2000 = some limit) :
      time ≤ limit := Option.some.inj hlimit ▸ h
  rcases List.mem_cons.1 hp with rfl | hp
  · exact ⟨_, _, _, .late rfl (.inl rfl)⟩
  · rcases List.mem_cons.1 hp with rfl | hp
    · exact ⟨_, _, _, .inTime rfl (htime _ (Nat.zero_le _))⟩
    · rcases List.mem_cons.1 hp with rfl | hp
      · exact ⟨_, _, _, .inTime rfl (htime _ (Nat.le_refl _))⟩
      · obtain rfl := List.mem_singleton.1 hp
        exact ⟨_, _, _, .inTime rfl (fun _ hnone => nomatch hnone)⟩

theorem noting_outcome : noting.Outcome ⟨[], {}⟩ [] ∧
    (noting.oracle.complete ⟨[], {}⟩).ending? []
      = (some (.finished (.ok ⟨"struct C", "m", "c"⟩)), ["a", "b", "c"]) := by
  refine ⟨complete_turns noting ⟨[], {}⟩ [] fun before p after _ s _ hproviders _ => ?_, rfl⟩
  exact noting_turn p (by rw [hproviders]; simp) s

end Chain

end Crosswalk
