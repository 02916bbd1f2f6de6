import Crosswalk.Proofs.Conversion.Trail
import Crosswalk.Proofs.Conversion.Twins

namespace Crosswalk

variable {σ ν : Type}

/-- How services answer a file when they remember something of each file: by what they are asked and
what they remember. `next` is what they remember of the file after that. -/
structure Habits (ν : Type) where
  reply : (path : String) → Request → ν → Ending (Except OracleFault String)
  next : (path : String) → Request → ν → ν
  verdict : (code shadow : String) → (target : Language) → Ending (Except OracleFault Verdict)

namespace Habits

def services (habits : Habits ν) : Services ν where
  ask path request n := (⟨[], habits.reply path request n⟩, habits.next path request n)
  check code shadow target n := (⟨[], habits.verdict code shadow target⟩, n)

end Habits

/-- The services have these habits with requests for the files, and a call for one file leaves what
they remember of the others as it was. -/
structure Services.Steady (services : Services σ) (terms : Terms) (files : List Source)
    (habits : Habits ν) (memory : σ → String → ν) : Prop where
  reply : ∀ (j : Job) (d : Draft) (w : σ), j.source ∈ files →
    (services.ask j.source.path (d.request terms j) w).1.ending
      = habits.reply j.source.path (d.request terms j) (memory w j.source.path)
  next : ∀ (j : Job) (d : Draft) (w : σ), j.source ∈ files →
    memory (services.ask j.source.path (d.request terms j) w).2
      = Function.update (memory w) j.source.path
        (habits.next j.source.path (d.request terms j) (memory w j.source.path))
  verdict : ∀ (code shadow : String) (target : Language) (w : σ),
    (services.check code shadow target w).1.ending = habits.verdict code shadow target
  check : ∀ (code shadow : String) (target : Language) (w : σ),
    memory (services.check code shadow target w).2 = memory w

namespace Services.Steady

variable {services : Services σ} {terms : Terms} {files : List Source} {habits : Habits ν}
  {memory : σ → String → ν}

theorem twins (hs : services.Steady terms files habits memory) {j : Job} (hj : j.source ∈ files) :
    Twins terms j (fun w n => memory w j.source.path = n) services habits.services := by
  refine ⟨fun d w n hn => ?_, fun code shadow target w n hn => ?_⟩
  · subst hn
    rw [hs.next j d w hj, Function.update_self]
    exact ⟨hs.reply j d w hj, rfl⟩
  · rw [hs.check]
    exact ⟨hs.verdict code shadow target w, hn⟩

theorem await_memory (hs : services.Steady terms files habits memory) {j : Job}
    (hj : j.source ∈ files) {path : String} (hpath : path ≠ j.source.path) (s : Shared σ)
    (c : Conversion) :
    memory (Seat.await services terms j s c).2.world path = memory s.world path := by
  cases c with
  | asking d =>
    simp only [Seat.await]
    rw [hs.next j d s.world hj, Function.update_of_ne hpath]
  | checking d answer candidate =>
    simp only [Seat.await]
    rw [hs.check]
  | escaped d fault => rfl
  | ended o => rfl

theorem step_memory (hs : services.Steady terms files habits memory) {j : Job}
    (hj : j.source ∈ files) {path : String} (hpath : path ≠ j.source.path) (s : Shared σ)
    (seat : Seat) : memory (seat.step services terms j s).2.world path = memory s.world path := by
  unfold Seat.step
  split
  · rfl
  · exact hs.await_memory hj hpath _ _

end Services.Steady

end Crosswalk
