import Crosswalk.Proofs.Renaming

namespace Crosswalk

open Text

namespace Spelling

variable {sps table : List Spelling}

theorem foldl_foreign (hapart : ∀ sp ∈ sps, ∀ sp' ∈ sps, sp.native ≠ sp'.foreign)
    (hone : ∀ sp ∈ sps, ∀ sp' ∈ sps, sp.foreign = sp'.foreign → sp.native = sp'.native)
    {sp : Spelling} (hsp : sp ∈ sps) : sps.foldl spelled sp.foreign = sp.native := by
  induction sps with
  | nil => cases hsp
  | cons a sps ih =>
    rw [List.foldl_cons, spelled]
    split
    · next hsame =>
      rw [hone sp hsp a List.mem_cons_self hsame]
      exact foldl_native fun sp' hsp' =>
        hapart a List.mem_cons_self sp' (List.mem_cons_of_mem _ hsp')
    · next hother =>
      have hrest : sp ∈ sps := (List.mem_cons.1 hsp).resolve_left fun heq => hother (heq ▸ rfl)
      exact ih (fun x hx y hy => hapart x (List.mem_cons_of_mem _ hx) y (List.mem_cons_of_mem _ hy))
        (fun x hx y hy => hone x (List.mem_cons_of_mem _ hx) y (List.mem_cons_of_mem _ hy)) hrest

def native? (sps : List Spelling) (word : String) : Option String :=
  (sps.find? (·.foreign = word)).map (·.native)

theorem native?_some {sps : List Spelling} {w native : String}
    (h : native? sps w = some native) :
    ∃ sp ∈ sps, sp.foreign = w ∧ sp.native = native := by
  obtain ⟨sp, hfind, hnative⟩ := Option.map_eq_some_iff.1 h
  exact ⟨sp, List.mem_of_find?_eq_some hfind, by simpa using List.find?_some hfind, hnative⟩

theorem foldl_eq_native? (hapart : ∀ sp ∈ sps, ∀ sp' ∈ sps, sp.native ≠ sp'.foreign)
    (hone : ∀ sp ∈ sps, ∀ sp' ∈ sps, sp.foreign = sp'.foreign → sp.native = sp'.native)
    (hperm : table.Perm sps) (word : String) :
    table.foldl spelled word = (native? sps word).getD word := by
  unfold native?
  cases hfind : sps.find? (·.foreign = word) with
  | none =>
    refine foldl_native fun sp hsp heq => ?_
    simpa [heq] using List.find?_eq_none.1 hfind sp (hperm.mem_iff.1 hsp)
  | some sp =>
    have hforeign : sp.foreign = word := by simpa using List.find?_some hfind
    have hmem (x : Spelling) : x ∈ table → x ∈ sps := hperm.mem_iff.1
    rw [← hforeign]
    exact foldl_foreign (fun x hx y hy => hapart x (hmem x hx) y (hmem y hy))
      (fun x hx y hy => hone x (hmem x hx) y (hmem y hy))
      (hperm.mem_iff.2 (List.mem_of_find?_eq_some hfind))

theorem mentions_word {sp : Spelling} {w : String} (hforeign : Word sp.foreign.toList)
    (hw : Word w.toList) : sp.mentions w = true ↔ w = sp.foreign ∨ w = sp.native := by
  have hwords : ∀ v ∈ [sp.foreign], Word v.toList := by simpa using hforeign
  have hoccurs := occursIn_words hwords w.toList
  rw [words_of_word hw] at hoccurs
  have hpattern : sp.rule.pattern = wholeWord (Pattern.texts [sp.foreign]) := rfl
  rw [mentions, hpattern, hoccurs]
  simp only [List.any_cons, List.any_nil, Bool.or_false, List.mem_singleton, Bool.or_eq_true,
    decide_eq_true_eq, beq_iff_eq, @eq_comm _ sp.native]

end Spelling

namespace RuleSet

def basicNames (rules : RuleSet) : List String :=
  rules.primitives.flatMap fun sp => [sp.foreign, sp.native]

theorem SpellsApart.isPrimitive_word {rules : RuleSet} (h : rules.SpellsApart) {w : String}
    (hw : Word w.toList) : rules.isPrimitive w = true ↔ w ∈ rules.basicNames := by
  simp only [isPrimitive, List.any_eq_true, basicNames, List.mem_flatMap, List.mem_cons,
    List.not_mem_nil, or_false]
  exact exists_congr fun sp => and_congr_right fun hsp =>
    Spelling.mentions_word (h.words sp hsp).1 hw

end RuleSet

theorem Direction.spelled_once (d : Direction) : ∀ sp ∈ d.rules.primitives,
    ∀ sp' ∈ d.rules.primitives, sp.foreign = sp'.foreign → sp.native = sp'.native := by
  cases d <;> decide

instance (name : String) : Decidable (Rules.IsTypeName name) :=
  decidable_of_iff (name.toList.head?.any Rules.isUpper = true ∧
      name.toList.tail.all Rules.isIdentifierChar = true) <| by
    unfold Rules.IsTypeName
    cases name.toList <;> simp

theorem Direction.spells_types (d : Direction) :
    ∀ sp ∈ d.rules.primitives, Rules.IsTypeName sp.foreign ∧ Rules.IsTypeName sp.native := by
  cases d <;> decide

/-- Every name that is mapped, and what it is mapped to, is the name of a type. -/
def Manifest.NamesTypes (m : Manifest) : Prop :=
  ∀ e ∈ m.symbols.entries, Rules.IsTypeName e.1 ∧ Rules.IsTypeName e.2

instance (m : Manifest) : Decidable m.NamesTypes :=
  inferInstanceAs (Decidable (∀ e ∈ m.symbols.entries, _))

theorem Manifest.WellNamed.namesTypes {m : Manifest} (h : m.WellNamed) : m.NamesTypes :=
  fun e he => h.names e.1 e.2 ((Entries.get?_eq_some m.symbols.ascending).2 he)

theorem Manifest.NamesTypes.words {m : Manifest} (h : m.NamesTypes) (rules : RuleSet) :
    ∀ e ∈ (Renaming.ofManifest rules m).entries, Word e.1.toList ∧ Word e.2.toList := by
  intro e he
  have hnames := h e (List.mem_filter.1 (List.mem_filter.1 he).1).1
  exact ⟨hnames.1.word, hnames.2.word⟩

namespace Unified

/-- The target of a word that is to be renamed: the two differ, the word is no defined type, and
neither of them is the name of a basic type. -/
def renamed? (rules : RuleSet) (m : Manifest) (w : String) : Option String :=
  (m.symbols.get? w).filter fun target =>
    w ≠ target ∧ m.isDefined w = false ∧ w ∉ rules.basicNames ∧ target ∉ rules.basicNames

def standIn (rules : RuleSet) (m : Manifest) (w : String) : String :=
  ((renamed? rules m w).or (Spelling.native? rules.primitives w)).getD w

variable {rules : RuleSet} {m : Manifest}

theorem renamed?_some (hm : m.NamesTypes) {w target : String}
    (h : renamed? rules m w = some target) :
    Rules.IsTypeName w ∧ Rules.IsTypeName target ∧ m.isDefined w = false := by
  obtain ⟨hmapped, hfree⟩ := Option.filter_eq_some_iff.1 h
  obtain ⟨hname, htarget⟩ := hm _ ((Entries.get?_eq_some m.symbols.ascending).1 hmapped)
  exact ⟨hname, htarget, (of_decide_eq_true hfree).2.1⟩

theorem target?_eq (hrules : rules.SpellsApart) (hm : m.NamesTypes) (w : String) :
    (Renaming.ofManifest rules m).target? w = renamed? rules m w := by
  have hentry (target : String) : (w, target) ∈ (Renaming.ofManifest rules m).entries ↔
      renamed? rules m w = some target := by
    simp only [Renaming.ofManifest, Manifest.renames, List.mem_filter, renamed?,
      Option.filter_eq_some_iff, ← Entries.get?_eq_some m.symbols.ascending, Table.get?, and_assoc]
    refine and_congr_right fun hmapped => ?_
    obtain ⟨hsource, htarget⟩ := hm _ ((Entries.get?_eq_some m.symbols.ascending).1 hmapped)
    have hprimitive {x : String} (hx : Rules.IsTypeName x) :
        rules.isPrimitive x = false ↔ x ∉ rules.basicNames := by
      rw [← hrules.isPrimitive_word hx.word, Bool.not_eq_true]
    simp [hprimitive hsource, hprimitive htarget, and_assoc]
  cases hlookup : (Renaming.ofManifest rules m).target? w with
  | some target => exact ((hentry target).1 (Renaming.target?_mem hlookup)).symm
  | none =>
    refine (Option.eq_none_iff_forall_ne_some.2 fun target htarget => ?_).symm
    have hnone := List.lookup_eq_none_iff.1 hlookup _ ((hentry target).2 htarget)
    simp at hnone

theorem spelled_eq (d : Direction) (w : String) :
    d.rules.spelled w = (Spelling.native? d.rules.primitives w).getD w :=
  Spelling.foldl_eq_native? d.rules_spellsApart.apart d.spelled_once (.refl _) w

theorem word_eq (hm : m.NamesTypes) (d : Direction) (w : String) :
    word d.rules (Renaming.ofManifest d.rules m) w = standIn d.rules m w := by
  rw [word, Renaming.renamed, target?_eq d.rules_spellsApart hm, standIn]
  cases hrenamed : renamed? d.rules m w with
  | none => exact spelled_eq d w
  | some target =>
    -- A target is no basic type, so its spelling is left alone.
    obtain ⟨hmapped, hfree⟩ := Option.filter_eq_some_iff.1 hrenamed
    obtain ⟨-, htarget⟩ := hm _ ((Entries.get?_eq_some m.symbols.ascending).1 hmapped)
    simp only [decide_eq_true_eq] at hfree
    rw [← d.rules_spellsApart.isPrimitive_word htarget.word, Bool.not_eq_true] at hfree
    exact d.rules_spellsApart.spelled_free hfree.2.2.2

/-- What unified files are, said without patterns and rules. -/
structure Wordwise (d : Direction) (m : Manifest) : Prop where
  content : ∀ c : String,
    content d m c = String.ofList (mapWords (standIn d.rules m) c.toList)
  ordered : ∀ (keys : List String) (table : List Spelling) (s : List Char),
    keys.Perm (Renaming.ofManifest d.rules m).words → table.Perm d.rules.primitives →
      Rule.applyAll (table.map Spelling.rule)
        ((Spelling.wholeWord (Pattern.texts keys)).replaceAll
          (Renaming.ofManifest d.rules m).replacement s) = mapWords (standIn d.rules m) s
  files : ∀ fs : List Converted, files d m fs = fs.map fun f =>
    if f.placeholder then f
    else { f with content := String.ofList (mapWords (standIn d.rules m) f.content.toList) }
  filesChanged : ∀ fs : List Converted,
    (report d m fs).filesChanged = fs.countP fun f => (file d m f).content ≠ f.content
  renamesApplied : ∀ fs : List Converted, (report d m fs).renamesApplied =
    ((fs.filter (!·.placeholder)).map fun f =>
      (words f.content.toList).countP fun w => (renamed? d.rules m w).isSome).sum

theorem content_eq (hm : m.NamesTypes) (d : Direction) (c : String) :
    content d m c = String.ofList (mapWords (standIn d.rules m) c.toList) := by
  rw [content, chars_eq d.rules_spellsApart (hm.words d.rules)]
  exact congrArg String.ofList (mapWords_congr fun w _ => word_eq hm d w)

theorem applyAll_ordered (hm : m.NamesTypes) (d : Direction) {keys : List String}
    {table : List Spelling} (hkeys : keys.Perm (Renaming.ofManifest d.rules m).words)
    (htable : table.Perm d.rules.primitives) (s : List Char) :
    Rule.applyAll (table.map Spelling.rule)
      ((Spelling.wholeWord (Pattern.texts keys)).replaceAll
        (Renaming.ofManifest d.rules m).replacement s) = mapWords (standIn d.rules m) s := by
  have hwords : ∀ sp ∈ table, Word sp.foreign.toList ∧ Word sp.native.toList :=
    fun sp hsp => d.rules_spellsApart.words sp (htable.mem_iff.1 hsp)
  rw [Renaming.replaceAll_keys hkeys fun _ => Renaming.keys_words (hm.words d.rules),
    Spelling.applyAll_eq hwords,
    mapWords_mapWords _ (Renaming.renamed_keeps (hm.words d.rules))]
  refine mapWords_congr fun w _ => ?_
  rw [← word_eq hm d w, word, spelled_eq, Function.comp_apply]
  exact Spelling.foldl_eq_native? d.rules_spellsApart.apart d.spelled_once htable _

theorem filesChanged_eq (d : Direction) (m : Manifest) (fs : List Converted) :
    (report d m fs).filesChanged = fs.countP fun f => (file d m f).content ≠ f.content := by
  rw [report, ← List.countP_eq_length_filter, List.countP_filter]
  refine List.countP_congr fun f _ => ?_
  unfold file
  cases f.placeholder <;> simp

/-- Files are unified by replacing their words, all at once and each by itself. -/
theorem unified_wordwise (hm : m.NamesTypes) (d : Direction) : Wordwise d m where
  content := content_eq hm d
  ordered _ _ s hkeys htable := applyAll_ordered hm d hkeys htable s
  files fs := List.map_congr_left fun f _ => by rw [file, content_eq hm d]
  filesChanged := filesChanged_eq d m
  renamesApplied fs := by
    rw [report_renamesApplied]
    refine congrArg List.sum (List.map_congr_left fun f _ => ?_)
    rw [Renaming.count_eq fun _ => Renaming.keys_words (hm.words d.rules)]
    exact List.countP_congr fun w _ => by rw [target?_eq d.rules_spellsApart hm]

/-- One name is the beginning of another one, one is defined itself, and one stands for a basic
type. -/
def mixedNames : Manifest where
  symbols := Table.ofList [("User", "UserModel"), ("UserSettings", "Preferences"),
    ("UserModel", "Account"), ("Flag", "Boolean")]
  definitions := NameSet.ofList ["Account", "Boolean", "Preferences", "UserModel"]
  exports := Table.empty

theorem mixedNames_wordwise : mixedNames.NamesTypes ∧
    content .kotlinToSwift mixedNames "User UserSettings(id: UserModel, Useré: Long) Flag"
      = "UserModel Preferences(id: UserModel, Useré: Int64) Flag" := by
  have hm : mixedNames.NamesTypes := by decide +kernel
  refine ⟨hm, ?_⟩
  rw [(unified_wordwise hm .kotlinToSwift).content]
  decide +kernel

end Unified

end Crosswalk
