import Mathlib
import Crosswalk.Oracle.Chain
import Crosswalk.Proofs.Work

namespace Crosswalk

namespace Work

variable {σ α : Type}

/-- Two endings are the same, in worlds that differ no more than the relation allows. -/
def SameEnd (R : σ → σ → Prop) (e e' : Option (Ending α) × σ) : Prop := e.1 = e'.1 ∧ R e.2 e'.2

def Alike (R : σ → σ → Prop) (w w' : Work σ α) : Prop :=
  ∀ s s', R s s' → SameEnd R (w.ending? s) (w'.ending? s')

end Work

variable {σ : Type}

def contentOf : Except OracleFault Reply → Work σ (Except OracleFault String)
  | .ok reply => .done (.ok reply.content)
  | .error fault => .done (.error fault)

def collected : Except OracleFault (TokenStream σ) → Work σ (Except OracleFault String)
  | .ok stream => stream.collect
  | .error fault => .done (.error fault)

theorem contentOf_fault {e : Option (Ending (Except OracleFault Reply)) × σ} {fault : OracleFault} :
    (Work.endingAfter contentOf e).1 = some (.finished (.error fault)) ↔
      e.1 = some (.finished (.error fault)) := by
  rcases e with ⟨_ | (fault' | reply) | reason, s⟩ <;>
    simp [Work.endingAfter, contentOf, Work.ending?]

theorem collected_fault {e : Option (Ending (Except OracleFault (TokenStream σ))) × σ}
    {fault : OracleFault}
    (h : (Work.endingAfter collected e).1 = some (.finished (.error fault))) :
    e.1 = some (.finished (.error fault)) ∨ ∃ stream s, e = (some (.finished (.ok stream)), s) ∧
      (stream.collect.ending? s).1 = some (.finished (.error fault)) := by
  rcases e with ⟨_ | (fault' | stream) | reason, s⟩
  · cases h
  · simpa [Work.endingAfter, collected, Work.ending?] using h
  · exact .inr ⟨stream, s, rfl, h⟩
  · cases h

namespace Provider

def whole (request : Request) (p : Provider σ) : Work σ (Except OracleFault String) :=
  (p.bounded (p.oracle.complete request)).bind contentOf

def streamed (request : Request) (p : Provider σ) : Work σ (Except OracleFault String) :=
  (p.bounded (p.oracle.openStream request)).bind collected

end Provider

namespace Client

theorem answer_whole (request : Request) (oracle : Oracle σ) :
    answer false request (.remote oracle) = (oracle.complete request).bind contentOf := rfl

theorem answer_streamed (request : Request) (oracle : Oracle σ) :
    answer true request (.remote oracle) = (oracle.openStream request).bind collected := rfl

end Client

/-- From this world, a stream that is opened brings no fault. -/
def Work.Delivers (w : Work σ (Except OracleFault (TokenStream σ))) (s : σ) : Prop :=
  ∀ stream s', w.ending? s = (some (.finished (.ok stream)), s') →
    ∀ fault, (stream.collect.ending? s').1 ≠ some (.finished (.error fault))

namespace Chain

open Work

section Steps

variable {α : Type} (ask : Provider σ → Work σ (Except OracleFault α)) {p : Provider σ} {s s' : σ}
  (faults : List (String × OracleFault)) (rest : List (Provider σ))

theorem firstAnswer_passes {fault : OracleFault}
    (h : (p.bounded (ask p)).ending? s = (some (.finished (.error fault)), s')) :
    (firstAnswer ask faults (p :: rest)).ending? s
      = (firstAnswer ask (faults ++ [(p.name, fault)]) rest).ending? s' := by
  rw [firstAnswer, ending?_bind, h]
  rfl

theorem firstAnswer_stops
    (h : ∀ fault, ((p.bounded (ask p)).ending? s).1 ≠ some (.finished (.error fault))) :
    (firstAnswer ask faults (p :: rest)).ending? s = (p.bounded (ask p)).ending? s := by
  rw [firstAnswer, ending?_bind]
  rcases hcall : (p.bounded (ask p)).ending? s with ⟨_ | (fault | answer) | reason, s'⟩
  · rfl
  · rw [hcall] at h
    exact absurd rfl (h fault)
  · rfl
  · rfl

end Steps

variable {R : σ → σ → Prop} {request : Request}

/-- Both ways of asking pass over a provider that fails and stop at the same one, or they fail with
the same faults. -/
theorem firstAnswer_sameEnd {providers : List (Provider σ)}
    (hagree : ∀ p ∈ providers, Alike R (p.streamed request) (p.whole request))
    (faults : List (String × OracleFault)) {s s' : σ} (hs : R s s')
    (hdelivers : (firstAnswer (·.oracle.openStream request) faults providers).Delivers s) :
    SameEnd R
      (((firstAnswer (·.oracle.openStream request) faults providers).bind collected).ending? s)
      (((firstAnswer (·.oracle.complete request) faults providers).bind contentOf).ending? s') := by
  induction providers generalizing faults s s' with
  | nil => exact ⟨rfl, hs⟩
  | cons p rest ih =>
    have hp := hagree p List.mem_cons_self s s' hs
    rw [Provider.streamed, Provider.whole, ending?_bind, ending?_bind] at hp
    rw [ending?_bind, ending?_bind]
    -- The two ways part company only behind an opened stream, which is why the opening decides.
    by_cases hopen : ∃ fault,
        ((p.bounded (p.oracle.openStream request)).ending? s).1 = some (.finished (.error fault))
    · obtain ⟨fault, hopen⟩ := hopen
      obtain ⟨s₁, hopen⟩ : ∃ s₁, (p.bounded (p.oracle.openStream request)).ending? s
          = (some (.finished (.error fault)), s₁) := ⟨_, Prod.ext hopen rfl⟩
      rw [hopen] at hp
      obtain ⟨s₁', hwhole⟩ : ∃ s₁', (p.bounded (p.oracle.complete request)).ending? s'
          = (some (.finished (.error fault)), s₁') :=
        ⟨_, Prod.ext (contentOf_fault.1 hp.1.symm) rfl⟩
      rw [hwhole] at hp
      have hrest := firstAnswer_passes (·.oracle.openStream request) faults rest hopen
      rw [Delivers, hrest] at hdelivers
      rw [hrest, firstAnswer_passes (·.oracle.complete request) faults rest hwhole,
        ← ending?_bind, ← ending?_bind]
      exact ih (fun q hq => hagree q (List.mem_cons_of_mem _ hq)) _ hp.2 hdelivers
    · have hopen := not_exists.1 hopen
      have hstops := firstAnswer_stops (·.oracle.openStream request) faults rest hopen
      have hwhole : ∀ fault, ((p.bounded (p.oracle.complete request)).ending? s').1
          ≠ some (.finished (.error fault)) := by
        intro fault hfault
        rcases collected_fault (hp.1.trans (contentOf_fault.2 hfault)) with
          hsame | ⟨stream, s₁, hstream, hcollect⟩
        · exact hopen fault hsame
        · exact hdelivers stream s₁ (hstops.trans hstream) fault hcollect
      rw [hstops, firstAnswer_stops (·.oracle.complete request) faults rest hwhole]
      exact hp

theorem firstAnswer_first {before : List (Provider σ)} {p : Provider σ} (after : List (Provider σ))
    {text : String}
    (hbefore : ∀ q ∈ before, ∀ s, ∃ fault,
      ((q.whole request).ending? s).1 = some (.finished (.error fault)))
    (hp : ∀ s, ((p.whole request).ending? s).1 = some (.finished (.ok text)))
    (faults : List (String × OracleFault)) (s : σ) :
    (((firstAnswer (·.oracle.complete request) faults (before ++ p :: after)).bind
      contentOf).ending? s).1 = some (.finished (.ok text)) := by
  simp only [Provider.whole, ending?_bind] at hbefore hp ⊢
  induction before generalizing faults s with
  | nil =>
    have hanswers : ∀ fault, ((p.bounded (p.oracle.complete request)).ending? s).1
        ≠ some (.finished (.error fault)) := by
      intro fault hfault
      have hsame := (hp s).symm.trans (contentOf_fault.2 hfault)
      cases hsame
    rw [List.nil_append, firstAnswer_stops (·.oracle.complete request) faults after hanswers]
    exact hp s
  | cons q before ih =>
    obtain ⟨fault, hfault⟩ := hbefore q List.mem_cons_self s
    obtain ⟨s', hfails⟩ : ∃ s', (q.bounded (q.oracle.complete request)).ending? s
        = (some (.finished (.error fault)), s') := ⟨_, Prod.ext (contentOf_fault.1 hfault) rfl⟩
    rw [List.cons_append, firstAnswer_passes (·.oracle.complete request) faults _ hfails]
    exact ih _ s' fun q hq => hbefore q (List.mem_cons_of_mem _ hq)

/-- Where each provider of a chain gives the same answer in both ways, the chain does so too, and
the first provider that answers wins, provided that the stream the chain opens brings no fault. -/
theorem answers_agree (c : Chain σ)
    (hagree : ∀ p ∈ c.providers, Alike R (p.streamed request) (p.whole request)) {s s' : σ}
    (hs : R s s') (hdelivers : (c.oracle.openStream request).Delivers s) :
    SameEnd R ((Client.answer true request (.remote c.oracle)).ending? s)
        ((Client.answer false request (.remote c.oracle)).ending? s') ∧
      ∀ before p after text, c.providers = before ++ p :: after →
        (∀ q ∈ before, ∀ s, ∃ fault,
          ((q.whole request).ending? s).1 = some (.finished (.error fault))) →
        (∀ s, ((p.whole request).ending? s).1 = some (.finished (.ok text))) →
        ((Client.answer true request (.remote c.oracle)).ending? s).1
            = some (.finished (.ok text)) ∧
          ((Client.answer false request (.remote c.oracle)).ending? s').1
            = some (.finished (.ok text)) := by
  have hsame : SameEnd R ((Client.answer true request (.remote c.oracle)).ending? s)
      ((Client.answer false request (.remote c.oracle)).ending? s') := by
    rw [Client.answer_streamed, Client.answer_whole]
    exact firstAnswer_sameEnd hagree [] hs hdelivers
  refine ⟨hsame, fun before p after text hproviders hbefore hp => ?_⟩
  have hfirst := firstAnswer_first after hbefore hp [] s'
  rw [← hproviders] at hfirst
  exact ⟨hsame.1.trans hfirst, hfirst⟩

def refused : Chain Unit where
  first := ⟨"a", .ofComplete "a" fun _ => .done (.error (.unreachable "refused")), none⟩
  others := [⟨"b", {
    name := "b"
    complete := fun _ => .done (.ok ⟨"struct B", "m", "b"⟩)
    openStream := fun _ => .done (.ok
      [.done (.ok (.token "struct")), .done (.ok (.token " B")), .done (.ok .finish)]) }, none⟩]

theorem refused_agree :
    (∀ p ∈ refused.providers, Alike Eq (p.streamed ⟨[], {}⟩) (p.whole ⟨[], {}⟩)) ∧
    (refused.oracle.openStream ⟨[], {}⟩).Delivers () ∧
    SameEnd Eq ((Client.answer true ⟨[], {}⟩ (.remote refused.oracle)).ending? ())
      ((Client.answer false ⟨[], {}⟩ (.remote refused.oracle)).ending? ()) ∧
    ((Client.answer true ⟨[], {}⟩ (.remote refused.oracle)).ending? ()).1
      = some (.finished (.ok "struct B")) := by
  have hagree : ∀ p ∈ refused.providers, Alike Eq (p.streamed ⟨[], {}⟩) (p.whole ⟨[], {}⟩) := by
    intro p hp
    rcases List.mem_cons.1 hp with rfl | hp
    · exact fun _ _ _ => ⟨rfl, rfl⟩
    · obtain rfl := List.mem_singleton.1 hp
      exact fun _ _ _ => ⟨rfl, rfl⟩
  have hdelivers : (refused.oracle.openStream ⟨[], {}⟩).Delivers () := by
    intro stream s hopen fault hfault
    cases hopen
    cases hfault
  have hagrees := answers_agree refused hagree rfl hdelivers
  refine ⟨hagree, hdelivers, hagrees.1, (hagrees.2 [refused.first] _ [] "struct B" rfl ?_ ?_).1⟩
  · intro q hq s
    obtain rfl := List.mem_singleton.1 hq
    exact ⟨_, rfl⟩
  · exact fun s => rfl

/-- The first provider loses its answer on the way, in one way of asking and in the other. -/
def lossy : Chain Unit where
  first := ⟨"a", {
    name := "a"
    complete := fun _ => .done (.error (.unreachable "lost"))
    openStream := fun _ => .done (.ok
      [.done (.ok (.token "x")), .done (.error (.unreachable "lost"))]) }, none⟩
  others := [⟨"b", .ofComplete "b" fun _ => .done (.ok ⟨"B", "m", "b"⟩), none⟩]

/-- A stream is not passed over once it is open: its fault is the fault of the chain, though the
next provider would have answered. -/
theorem lossy_disagree :
    (∀ p ∈ lossy.providers, Alike Eq (p.streamed ⟨[], {}⟩) (p.whole ⟨[], {}⟩)) ∧
    ((Client.answer false ⟨[], {}⟩ (.remote lossy.oracle)).ending? ()).1
      = some (.finished (.ok "B")) ∧
    ((Client.answer true ⟨[], {}⟩ (.remote lossy.oracle)).ending? ()).1
      = some (.finished (.error (.unreachable "lost"))) := by
  refine ⟨fun p hp => ?_, rfl, rfl⟩
  rcases List.mem_cons.1 hp with rfl | hp
  · exact fun _ _ _ => ⟨rfl, rfl⟩
  · obtain rfl := List.mem_singleton.1 hp
    exact fun _ _ _ => ⟨rfl, rfl⟩

end Chain

end Crosswalk
