import Crosswalk.Proofs.Batch.Provenance
import Crosswalk.Proofs.Names.Declaring
import Crosswalk.Proofs.Wordwise

namespace Crosswalk

variable {σ : Type}

theorem Manifest.WellNamed.after {m : Manifest} (h : m.WellNamed) (desks : List Desk) :
    (m.after desks).WellNamed := by
  induction desks generalizing m with
  | nil => exact h
  | cons p desks ih =>
    rw [after_cons]
    cases p.seat.verified? with
    | none => exact ih h
    | some c => exact ih (h.record p.job.source.content c.content c.outputPath)

namespace Unified

open Rules

theorem standIn_cases {m : Manifest} (hm : m.NamesTypes) (d : Direction) (w : String) :
    standIn d.rules m w = w ∨
      IsTypeName w ∧ IsTypeName (standIn d.rules m w) ∧
        (m.isDefined w = false ∨
          ∃ sp ∈ d.rules.primitives, sp.foreign = w ∧ sp.native = standIn d.rules m w) := by
  unfold standIn
  cases hrenamed : renamed? d.rules m w with
  | some target =>
    obtain ⟨hname, htarget, hfree⟩ := renamed?_some hm hrenamed
    exact .inr ⟨hname, htarget, .inl hfree⟩
  | none =>
    cases hnative : Spelling.native? d.rules.primitives w with
    | none => exact .inl rfl
    | some native =>
      obtain ⟨sp, hsp, rfl, rfl⟩ := Spelling.native?_some hnative
      obtain ⟨hforeign, hspelled⟩ := d.spells_types sp hsp
      exact .inr ⟨hforeign, hspelled, .inr ⟨sp, hsp, rfl, rfl⟩⟩

theorem standIn_recapitalises {m : Manifest} (hm : m.NamesTypes) (d : Direction) :
    Recapitalises (standIn d.rules m) := by
  refine ⟨fun w hw => ?_, fun w hother => ?_⟩
  · rw [← word_eq hm d w]
    exact word_keeps d.rules_spellsApart (hm.words d.rules) w hw
  · obtain ⟨hname, hstandIn, -⟩ := (standIn_cases hm d w).resolve_left hother
    exact ⟨hname.capitalised, hstandIn.capitalised⟩

theorem declaredType?_content {m : Manifest} (hm : m.NamesTypes) (d : Direction) {c name : String}
    (hname : declaredType? c = some name) (hdefined : m.isDefined name = true) :
    declaredType? (content d m c) = some name ∨
      ∃ sp ∈ d.rules.primitives, sp.foreign = name ∧
        declaredType? (content d m c) = some sp.native := by
  rw [declaredType?_eq] at hname
  obtain ⟨w, hw, rfl⟩ := Option.map_eq_some_iff.1 hname
  have hafter : declaredType? (content d m c) = some (nameOf (standIn d.rules m w)) := by
    rw [content_eq hm, declaredType?_eq, (standIn_recapitalises hm d).declared?_mapWords, hw]
    rfl
  rw [hafter]
  rcases standIn_cases hm d w with hsame | ⟨htype, hstandIn, hfree | ⟨sp, hsp, rfl, hnative⟩⟩
  · exact .inl (by rw [hsame])
  · -- A word that is the name of a type is all of the declared name.
    rw [htype.nameOf, hfree] at hdefined
    cases hdefined
  · exact .inr ⟨sp, hsp, htype.nameOf.symm, by rw [hstandIn.nameOf, hnative]⟩

end Unified

namespace Batch

open Rules

def candidatesIn (moves : List Move) (e : Engine σ) (options : ResolvedOptions)
    (files : List Source) (world : σ) : List Converted :=
  (entriesIn moves e options files world).filterMap Entry.result?

/-- A verified file declares the type that is recorded of it. -/
structure Declares (d : Direction) (m : Manifest) (candidate delivered : Converted) : Prop where
  recorded : ∀ name, candidate.verified = true → declaredType? candidate.content = some name →
    m.isDefined name = true
  kept : ∀ name, candidate.verified = true → declaredType? candidate.content = some name →
    (∀ sp ∈ d.rules.primitives, sp.foreign ≠ name) → declaredType? delivered.content = some name
  spelled : ∀ sp ∈ d.rules.primitives, candidate.verified = true →
    declaredType? candidate.content = some sp.foreign →
      declaredType? delivered.content = some sp.foreign ∨
        declaredType? delivered.content = some sp.native

variable {moves : List Move} {e : Engine σ} {options : ResolvedOptions} {files : List Source}
  {world : σ}

theorem isDefined_of_candidate (hdone : Completes moves e options files world) {c : Converted}
    (hc : c ∈ candidatesIn moves e options files world) (hverified : c.verified = true)
    {name : String} (hname : declaredType? c.content = some name) :
    (convertIn moves e options files world).1.manifest.isDefined name = true := by
  obtain ⟨entry, hentry, hresult⟩ := List.mem_filterMap.1 hc
  obtain rfl : entry = .ok c := by
    cases entry with
    | error f => cases hresult
    | ok c' => exact congrArg Except.ok (Option.some.inj hresult)
  obtain ⟨i, hi⟩ := List.getElem?_of_mem hentry
  obtain ⟨p, hp, -, hseat⟩ := (verified_entry hdone).1 ⟨hi, hverified⟩
  rw [convertIn_manifest, hallAfter_manifest, Manifest.isDefined_after]
  exact .inr ⟨p, hp, c, hseat, hname⟩

/-- What is recorded of a verified file is the type that it still declares when it is delivered, but
for the names of basic types of the source language. -/
theorem convertIn_declares (hdone : Completes moves e options files world) :
    List.Forall₂ (Declares options.direction (convertIn moves e options files world).1.manifest)
      (candidatesIn moves e options files world)
      (convertIn moves e options files world).1.results := by
  have hnames : (convertIn moves e options files world).1.manifest.NamesTypes := by
    rw [convertIn_manifest, hallAfter_manifest]
    exact (Manifest.empty_wellNamed.after _).namesTypes
  rw [convertIn_results, ← convertIn_manifest, Unified.files, List.forall₂_map_right_iff]
  refine List.forall₂_same.2 fun c hc => ?_
  have hdeclared {name : String} (hverified : c.verified = true)
      (hname : declaredType? c.content = some name) :
      declaredType? (Unified.file options.direction
          (convertIn moves e options files world).1.manifest c).content = some name ∨
        ∃ sp ∈ options.direction.rules.primitives, sp.foreign = name ∧
          declaredType? (Unified.file options.direction
            (convertIn moves e options files world).1.manifest c).content = some sp.native := by
    unfold Unified.file
    split
    · exact .inl hname
    · exact Unified.declaredType?_content hnames options.direction hname
        (isDefined_of_candidate hdone hc hverified hname)
  refine ⟨fun _ hverified hname => isDefined_of_candidate hdone hc hverified hname,
    fun name hverified hname hfree => ?_, fun sp hsp hverified hname => ?_⟩
  · rcases hdeclared hverified hname with hsame | ⟨sp, hsp, heq, -⟩
    · exact hsame
    · exact absurd heq (hfree sp hsp)
  · rcases hdeclared hverified hname with hsame | ⟨sp', hsp', heq, hnative⟩
    · exact .inl hsame
    · rw [hnative, options.direction.spelled_once sp' hsp' sp hsp heq]
      exact .inr rfl

theorem twoFiles_declare : Completes braided sameAnswer {} twoFiles () ∧
    List.Forall₂ (Declares .kotlinToSwift (convertIn braided sameAnswer {} twoFiles ()).1.manifest)
      (candidatesIn braided sameAnswer {} twoFiles ())
      (convertIn braided sameAnswer {} twoFiles ()).1.results ∧
    (convertIn braided sameAnswer {} twoFiles ()).1.results.map (declaredType? ·.content)
      = [some "A", some "A"] :=
  ⟨braided_completes, convertIn_declares braided_completes, by decide +kernel⟩

def ownUnit : List Source := [⟨"unit.kt", .kotlin, "class Unit"⟩]

def unitAnswer : Engine Unit where
  client := .remote (.ofComplete "unit" fun _ => .done (.ok ⟨"struct Unit {}", "", ""⟩))
  checker := .acceptAll

def alone : List Move := [.work 0, .work 0, .work 0, .collect 0]

/-- The type is recorded under its own name and delivered under the native spelling of the basic
type. -/
theorem ownUnit_respelled : Completes alone unitAnswer {} ownUnit () ∧
    (convertIn alone unitAnswer {} ownUnit ()).1.manifest.isDefined "Unit" = true ∧
    (convertIn alone unitAnswer {} ownUnit ()).1.manifest.exports.get? "Unit" = some "unit.swift" ∧
    (candidatesIn alone unitAnswer {} ownUnit ()).map (fun c => (c.verified, c.content))
      = [(true, "struct Unit {}")] ∧
    (convertIn alone unitAnswer {} ownUnit ()).1.results.map (fun c => (c.verified, c.content))
      = [(true, "struct Void {}")] ∧
    declaredType? "struct Unit {}" = some "Unit" ∧
    declaredType? "struct Void {}" = some "Void" := by
  unfold Completes
  decide +kernel

end Batch

end Crosswalk
