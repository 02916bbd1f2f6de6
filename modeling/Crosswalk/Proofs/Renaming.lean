import Crosswalk.Proofs.Names.Declared
import Crosswalk.Proofs.Pattern.Words
import Crosswalk.Renaming

namespace Crosswalk

open Text

namespace Renaming

variable {r : Renaming}

def renamed (r : Renaming) (word : String) : String := (r.target? word).getD word

theorem mem_words {word : String} : word ∈ r.words ↔ ∃ target, (word, target) ∈ r.entries := by
  simp only [words, List.mem_mergeSort, List.mem_map, Prod.exists, exists_and_right,
    exists_eq_right]

theorem target?_mem {word target : String} (h : r.target? word = some target) :
    (word, target) ∈ r.entries := by
  obtain ⟨before, after, hentries, -⟩ := List.lookup_eq_some_iff.1 h
  rw [hentries]
  exact List.mem_append_right _ List.mem_cons_self

theorem target?_of_not_mem {word : String} (h : word ∉ r.words) : r.target? word = none := by
  cases htarget : r.target? word with
  | none => rfl
  | some target => exact absurd (mem_words.2 ⟨target, target?_mem htarget⟩) h

theorem isEmpty_words (h : r.isEmpty = true) (word : String) : word ∉ r.words := by
  rintro hmem
  obtain ⟨target, hentry⟩ := mem_words.1 hmem
  rw [List.isEmpty_iff.1 h] at hentry
  cases hentry

theorem renamed_of_not_mem {word : String} (h : word ∉ r.words) : r.renamed word = word := by
  rw [renamed, target?_of_not_mem h, Option.getD_none]

theorem replacement_eq (r : Renaming) (m : Match) :
    r.replacement m = (r.renamed (String.ofList m.text)).toList := by
  unfold replacement renamed
  cases r.target? (String.ofList m.text) with
  | some target => rfl
  | none => exact String.toList_ofList.symm

theorem replaceAll_keys {keys : List String} (hkeys : keys.Perm r.words)
    (hwords : ∀ w ∈ r.words, Word w.toList) (s : List Char) :
    (Spelling.wholeWord (Pattern.texts keys)).replaceAll r.replacement s = mapWords r.renamed s := by
  rw [Spelling.replaceAll_words (fun w hw => hwords w (hkeys.mem_iff.1 hw)) r.replacement_eq]
  refine mapWords_congr fun w _ => ?_
  split
  · rfl
  · next hnot => exact (renamed_of_not_mem fun hw => hnot (hkeys.mem_iff.2 hw)).symm

theorem apply_eq (hwords : ∀ w ∈ r.words, Word w.toList) (s : List Char) :
    r.apply s = mapWords r.renamed s := by
  unfold apply
  split
  · next hempty =>
    exact (mapWords_self fun w _ => renamed_of_not_mem (isEmpty_words hempty w)).symm
  · exact replaceAll_keys (.refl _) hwords s

theorem count_eq (hwords : ∀ w ∈ r.words, Word w.toList) (s : List Char) :
    r.count s = (Text.words s).countP fun w => (r.target? w).isSome := by
  have hin {w : String} (h : (r.target? w).isSome = true) : w ∈ r.words := by
    by_contra hnot
    rw [target?_of_not_mem hnot] at h
    cases h
  unfold count
  split
  · next hempty =>
    symm
    exact List.countP_eq_zero.2 fun w _ h => isEmpty_words hempty w (hin h)
  · have hfound := congrArg (List.countP fun w => (r.target? w).isSome)
      (Spelling.findAll_words hwords s)
    rw [List.countP_map, List.countP_filter] at hfound
    rw [← List.countP_eq_length_filter]
    refine hfound.trans (List.countP_congr fun w _ => ?_)
    simp only [Bool.and_eq_true, decide_eq_true_eq, and_iff_left_iff_imp]
    exact hin

end Renaming

namespace Spelling

def spelled (word : String) (sp : Spelling) : String := if word = sp.foreign then sp.native else word

theorem apply_eq {sp : Spelling} (h : Word sp.foreign.toList) (s : List Char) :
    sp.rule.apply s = mapWords (spelled · sp) s := by
  have hws : ∀ w ∈ [sp.foreign], Word w.toList := by simpa using h
  have hreplacement (m : Match) : sp.rule.replacement m = sp.native.toList := List.append_nil _
  have happly := replaceAll_words hws (g := fun _ => sp.native) hreplacement s
  simp only [List.mem_singleton] at happly
  exact happly

theorem applyAll_eq {sps : List Spelling}
    (h : ∀ sp ∈ sps, Word sp.foreign.toList ∧ Word sp.native.toList) (s : List Char) :
    Rule.applyAll (sps.map rule) s = mapWords (sps.foldl spelled) s := by
  induction sps generalizing s with
  | nil => exact (mapWords_self fun _ _ => rfl).symm
  | cons sp sps ih =>
    obtain ⟨hforeign, hnative⟩ := h sp List.mem_cons_self
    have hkeeps : KeepsWords (spelled · sp) := by
      intro w hw
      change Word (spelled w sp).toList
      unfold spelled
      split
      · exact hnative
      · exact hw
    have hrest := ih (fun sp hsp => h sp (List.mem_cons_of_mem _ hsp)) (sp.rule.apply s)
    rw [apply_eq hforeign, mapWords_mapWords _ hkeeps] at hrest
    rw [← apply_eq hforeign] at hrest
    exact hrest

theorem foldl_native {sps : List Spelling} {word : String} (h : ∀ sp ∈ sps, word ≠ sp.foreign) :
    sps.foldl spelled word = word := by
  induction sps with
  | nil => rfl
  | cons sp sps ih =>
    rw [List.foldl_cons, spelled, if_neg (h sp List.mem_cons_self)]
    exact ih fun sp hsp => h sp (List.mem_cons_of_mem _ hsp)

/-- A word is foreign and gets the native spelling, or it stays. -/
theorem foldl_spelled {sps : List Spelling}
    (hapart : ∀ sp ∈ sps, ∀ sp' ∈ sps, sp.native ≠ sp'.foreign) (word : String) :
    (∃ sp ∈ sps, sps.foldl spelled word = sp.native) ∨ sps.foldl spelled word = word ∧
      ∀ sp ∈ sps, word ≠ sp.foreign := by
  induction sps with
  | nil => exact .inr ⟨rfl, by simp⟩
  | cons sp sps ih =>
    have ih := ih fun a ha b hb =>
      hapart a (List.mem_cons_of_mem _ ha) b (List.mem_cons_of_mem _ hb)
    rw [List.foldl_cons, spelled]
    split
    · exact .inl ⟨sp, List.mem_cons_self, foldl_native fun sp' hsp' =>
        hapart sp List.mem_cons_self sp' (List.mem_cons_of_mem _ hsp')⟩
    · next hne =>
      rcases ih with ⟨sp', hsp', heq⟩ | ⟨heq, hnot⟩
      · exact .inl ⟨sp', List.mem_cons_of_mem _ hsp', heq⟩
      · refine .inr ⟨heq, fun sp' hsp' => ?_⟩
        rcases List.mem_cons.1 hsp' with rfl | hsp'
        · exact hne
        · exact hnot sp' hsp'

end Spelling

namespace RuleSet

/-- The spellings of the basic types are words, and none is both native and foreign. -/
structure SpellsApart (rules : RuleSet) : Prop where
  words : ∀ sp ∈ rules.primitives, Word sp.foreign.toList ∧ Word sp.native.toList
  apart : ∀ sp ∈ rules.primitives, ∀ sp' ∈ rules.primitives, sp.native ≠ sp'.foreign
  mentions : ∀ sp ∈ rules.primitives,
    rules.isPrimitive sp.foreign = true ∧ rules.isPrimitive sp.native = true

def spelled (rules : RuleSet) (word : String) : String := rules.primitives.foldl Spelling.spelled word

theorem SpellsApart.spelled_keeps {rules : RuleSet} (h : rules.SpellsApart) :
    KeepsWords rules.spelled := by
  intro w hw
  rcases Spelling.foldl_spelled h.apart w with ⟨sp, hsp, heq⟩ | ⟨heq, -⟩
  · rw [spelled, heq]
    exact (h.words sp hsp).2
  · rw [spelled, heq]
    exact hw

theorem SpellsApart.spelled_free {rules : RuleSet} (h : rules.SpellsApart) {word : String}
    (hfree : rules.isPrimitive word = false) : rules.spelled word = word := by
  refine Spelling.foldl_native fun sp hsp heq => ?_
  rw [heq, (h.mentions sp hsp).1] at hfree
  cases hfree

theorem SpellsApart.spelled_cases {rules : RuleSet} (h : rules.SpellsApart) (word : String) :
    (rules.isPrimitive (rules.spelled word) = true ∨ rules.spelled word = word) ∧
      rules.spelled (rules.spelled word) = rules.spelled word := by
  rcases Spelling.foldl_spelled h.apart word with ⟨sp, hsp, heq⟩ | ⟨heq, -⟩
  · have hspelled : rules.spelled word = sp.native := heq
    rw [hspelled]
    exact ⟨.inl (h.mentions sp hsp).2, Spelling.foldl_native (h.apart sp hsp)⟩
  · have hspelled : rules.spelled word = word := heq
    rw [hspelled, hspelled]
    exact ⟨.inr rfl, rfl⟩

end RuleSet

theorem Direction.rules_spellsApart (d : Direction) : d.rules.SpellsApart := by
  cases d <;> exact ⟨by decide, by decide, by decide⟩

namespace Renaming

variable {rules : RuleSet} {r : Renaming}

/-- Names are renamed once, to names that are renamed no further, and basic types are left alone. -/
structure Settles (rules : RuleSet) (r : Renaming) : Prop where
  words : ∀ e ∈ r.entries, Word e.1.toList ∧ Word e.2.toList
  once : ∀ e ∈ r.entries, ∀ e' ∈ r.entries, e.2 ≠ e'.1
  free : ∀ e ∈ r.entries, rules.isPrimitive e.1 = false ∧ rules.isPrimitive e.2 = false

theorem ofManifest_settles {m : Manifest} (hm : m.WellNamed) (rules : RuleSet) :
    (ofManifest rules m).Settles rules := by
  have hentry {e : String × String} (he : e ∈ (ofManifest rules m).entries) :
      m.symbols.get? e.1 = some e.2 ∧ m.isDefined e.1 = false ∧
        rules.isPrimitive e.1 = false ∧ rules.isPrimitive e.2 = false := by
    simp only [ofManifest, Manifest.renames, List.mem_filter, Bool.and_eq_true,
      Bool.not_eq_true'] at he
    obtain ⟨⟨hmem, -, hdefined⟩, hsource, htarget⟩ := he
    exact ⟨(Entries.get?_eq_some m.symbols.ascending).2 hmem, hdefined, hsource, htarget⟩
  refine ⟨fun e he => ?_, fun e he e' he' heq => ?_, fun e he => (hentry he).2.2⟩
  · obtain ⟨hname, htarget⟩ := hm.names _ _ (hentry he).1
    exact ⟨hname.word, htarget.word⟩
  · have hdefined := hm.defined _ _ (hentry he).1
    rw [heq, (hentry he').2.1] at hdefined
    cases hdefined

section Words

variable (h : ∀ e ∈ r.entries, Word e.1.toList ∧ Word e.2.toList)
include h

theorem keys_words {w : String} (hw : w ∈ r.words) : Word w.toList := by
  obtain ⟨target, hentry⟩ := mem_words.1 hw
  exact (h _ hentry).1

theorem renamed_keeps : KeepsWords r.renamed := by
  intro w hw
  unfold renamed
  cases htarget : r.target? w with
  | none => exact hw
  | some target => exact (h _ (target?_mem htarget)).2

end Words

theorem Settles.target?_target (h : r.Settles rules) {w target : String}
    (htarget : r.target? w = some target) : r.target? target = none := by
  cases hnext : r.target? target with
  | none => rfl
  | some next => exact absurd rfl (h.once _ (target?_mem htarget) _ (target?_mem hnext))

theorem Settles.target?_primitive (h : r.Settles rules) {w : String}
    (hw : rules.isPrimitive w = true) : r.target? w = none := by
  cases htarget : r.target? w with
  | none => rfl
  | some target =>
    rw [(h.free _ (target?_mem htarget)).1] at hw
    cases hw

end Renaming

namespace Unified

variable {rules : RuleSet} {r : Renaming}

def word (rules : RuleSet) (r : Renaming) (w : String) : String := rules.spelled (r.renamed w)

theorem word_settled (hrules : rules.SpellsApart) (hr : r.Settles rules) (w : String) :
    r.target? (word rules r w) = none ∧ word rules r (word rules r w) = word rules r w := by
  have htarget : r.target? (word rules r w) = none := by
    cases hw : r.target? w with
    | some target =>
      have hfree := (hr.free _ (Renaming.target?_mem hw)).2
      rw [word, Renaming.renamed, hw, Option.getD_some, hrules.spelled_free hfree]
      exact hr.target?_target hw
    | none =>
      rw [word, Renaming.renamed, hw, Option.getD_none]
      rcases (hrules.spelled_cases w).1 with hprimitive | hsame
      · exact hr.target?_primitive hprimitive
      · rwa [hsame]
  refine ⟨htarget, ?_⟩
  have hrenamed : r.renamed (word rules r w) = word rules r w := by
    rw [Renaming.renamed, htarget, Option.getD_none]
  rw [word, hrenamed]
  exact (hrules.spelled_cases (r.renamed w)).2

theorem chars_eq (hrules : rules.SpellsApart)
    (hr : ∀ e ∈ r.entries, Word e.1.toList ∧ Word e.2.toList) (s : List Char) :
    chars rules r s = mapWords (word rules r) s := by
  rw [chars, Renaming.apply_eq fun _ => Renaming.keys_words hr]
  exact (Spelling.applyAll_eq hrules.words _).trans
    (mapWords_mapWords _ (Renaming.renamed_keeps hr) s)

theorem word_keeps (hrules : rules.SpellsApart)
    (hr : ∀ e ∈ r.entries, Word e.1.toList ∧ Word e.2.toList) : KeepsWords (word rules r) :=
  hrules.spelled_keeps.comp (Renaming.renamed_keeps hr)

theorem chars_again (hrules : rules.SpellsApart) (hr : r.Settles rules) (s : List Char) :
    chars rules r (chars rules r s) = chars rules r s := by
  rw [chars_eq hrules hr.words, chars_eq hrules hr.words,
    mapWords_mapWords _ (word_keeps hrules hr.words)]
  exact mapWords_congr fun w _ => (word_settled hrules hr w).2

theorem count_again (hrules : rules.SpellsApart) (hr : r.Settles rules) (s : List Char) :
    r.count (chars rules r s) = 0 := by
  rw [Renaming.count_eq fun _ => Renaming.keys_words hr.words, chars_eq hrules hr.words,
    words_mapWords (word_keeps hrules hr.words), List.countP_map, List.countP_eq_zero]
  intro w _ hsome
  rw [Function.comp_apply, (word_settled hrules hr w).1] at hsome
  cases hsome

/-- The files are unified: to unify them again changes nothing, and nothing is counted. -/
structure Stable (d : Direction) (m : Manifest) (fs : List Converted) : Prop where
  files : files d m fs = fs
  report : report d m fs = ⟨0, 0⟩

theorem content_again {m : Manifest} (hm : m.WellNamed) (d : Direction) (c : String) :
    content d m (content d m c) = content d m c := by
  rw [content, content, String.toList_ofList,
    chars_again d.rules_spellsApart (Renaming.ofManifest_settles hm d.rules)]

theorem report_renamesApplied (d : Direction) (m : Manifest) (fs : List Converted) :
    (report d m fs).renamesApplied = ((fs.filter (!·.placeholder)).map fun f =>
      (Renaming.ofManifest d.rules m).count f.content.toList).sum := by
  rw [List.sum_eq_foldr, List.foldr_map]
  rfl

theorem stable_of_content {m : Manifest} {d : Direction} {fs : List Converted}
    (h : ∀ f ∈ fs, f.placeholder = false → content d m f.content = f.content ∧
      (Renaming.ofManifest d.rules m).count f.content.toList = 0) : Stable d m fs := by
  have hfiles : ∀ f ∈ fs, file d m f = f := by
    intro f hf
    unfold file
    split
    · rfl
    · next hopen => rw [(h f hf (by simpa using hopen)).1]
  have hopen : ∀ f ∈ fs.filter (!·.placeholder), content d m f.content = f.content ∧
      (Renaming.ofManifest d.rules m).count f.content.toList = 0 := by
    intro f hf
    obtain ⟨hmem, hplaceholder⟩ := List.mem_filter.1 hf
    exact h f hmem (by simpa using hplaceholder)
  have hchanged : (report d m fs).filesChanged = 0 := by
    rw [report, List.length_eq_zero_iff, List.filter_eq_nil_iff]
    exact fun f hf => by simpa using (hopen f hf).1
  have hrenames : (report d m fs).renamesApplied = 0 := by
    rw [report_renamesApplied]
    refine List.sum_eq_zero fun n hn => ?_
    obtain ⟨f, hf, rfl⟩ := List.mem_map.1 hn
    exact (hopen f hf).2
  refine ⟨(List.map_congr_left hfiles).trans (List.map_id fs), ?_⟩
  rw [report, Report.mk.injEq]
  exact ⟨hchanged, hrenames⟩

/-- Files that were unified once are unified for good, with whatever a manifest has recorded. -/
theorem files_idempotent (notes : List Note) (d : Direction) (fs : List Converted) :
    Stable d (Manifest.ofNotes notes) (files d (Manifest.ofNotes notes) fs) ∧
      ∀ c, content d (Manifest.ofNotes notes) (content d (Manifest.ofNotes notes) c)
        = content d (Manifest.ofNotes notes) c := by
  have hm := Manifest.ofNotes_wellNamed notes
  refine ⟨stable_of_content fun f hf hopen => ?_, content_again hm d⟩
  obtain ⟨g, -, rfl⟩ := List.mem_map.1 hf
  unfold file at hopen ⊢
  split
  · next hplaceholder => simp [hplaceholder] at hopen
  · refine ⟨content_again hm d g.content, ?_⟩
    rw [content, String.toList_ofList]
    exact count_again d.rules_spellsApart (Renaming.ofManifest_settles hm d.rules) _

end Unified

end Crosswalk
