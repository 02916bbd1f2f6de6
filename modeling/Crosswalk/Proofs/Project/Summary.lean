import Crosswalk.Project.Summary
import Crosswalk.Proofs.Names.Table

namespace Crosswalk

/-- What is kept of a list when each item stays where it occurs first. -/
structure FirstOccurrences (all kept : List String) : Prop where
  nodup : kept.Nodup
  mem_iff : ∀ name, name ∈ kept ↔ name ∈ all
  inOrder : kept.Pairwise fun a b => all.idxOf a < all.idxOf b

structure VocabularyHits (vocabulary : List String) (content : String) (found : List String) :
    Prop where
  nodup : found.Nodup
  mem_iff : ∀ word, word ∈ found ↔ word ∈ vocabulary ∧
    Text.contains word.toList (Text.keywordLower content.toList) = true
  inOrder : found.Sublist vocabulary

theorem Lane.hits_vocabulary {vocabulary : List String} (h : vocabulary.Nodup) (content : String) :
    VocabularyHits vocabulary content (Lane.hits vocabulary content) where
  nodup := h.filter _
  mem_iff _ := List.mem_filter
  inOrder := List.filter_sublist

namespace Signals

theorem mem_distinct {name : String} {all : List String} : name ∈ distinct all ↔ name ∈ all := by
  induction all with
  | nil => rfl
  | cons a rest ih =>
    by_cases h : name = a
    · simp [distinct, h]
    · simp [distinct, ih, h]

theorem distinct_firstOccurrences (all : List String) : FirstOccurrences all (distinct all) := by
  refine ⟨?_, fun _ => mem_distinct, ?_⟩
  · induction all with
    | nil => exact .nil
    | cons a rest ih => exact List.nodup_cons.2 ⟨by simp, ih.filter _⟩
  · induction all with
    | nil => exact .nil
    | cons a rest ih =>
      have hlater {b : String} (hb : b ∈ (distinct rest).filter (· != a)) :
          (a :: rest).idxOf b = rest.idxOf b + 1 :=
        List.idxOf_cons_ne _ (Ne.symm (by simpa using (List.mem_filter.1 hb).2))
      refine List.pairwise_cons.2 ⟨fun b hb => ?_, (ih.filter _).imp_of_mem fun hb hc hlt => ?_⟩
      · rw [List.idxOf_cons_self, hlater hb]
        exact Nat.succ_pos _
      · rw [hlater hb, hlater hc]
        exact Nat.succ_lt_succ hlt

def allCaptured (p : Pattern) (content : String) : List String :=
  (p.findAll content.toList).filterMap fun m => m.firstGroup?.map String.ofList

/-- What is known of a file: captured names in the order of their first occurrence, and signals in
the order of their vocabulary. -/
structure Describes (s : Source) (f : Signals) : Prop where
  path : f.path = s.path
  types : FirstOccurrences (allCaptured Rules.typeDeclaration s.content) f.types
  functions : FirstOccurrences (allCaptured Rules.functionDeclaration s.content) f.functions
  stateNames : FirstOccurrences (allCaptured Rules.stateDeclaration s.content) f.stateNames
  navigation : VocabularyHits Rules.navigationVocabulary s.content f.navigation
  stateFrameworks : VocabularyHits Rules.stateVocabulary s.content f.stateFrameworks
  services : VocabularyHits Rules.serviceVocabulary s.content f.services
  deepLinks : VocabularyHits Rules.deepLinkVocabulary s.content f.deepLinks
  persistedKeys : FirstOccurrences (allCaptured Rules.persistedKey s.content) f.persistedKeys
  payloadKeys : FirstOccurrences (allCaptured Rules.payloadKey s.content) f.payloadKeys

theorem ofSource_describes (s : Source) : Describes s (ofSource s) where
  path := rfl
  types := distinct_firstOccurrences _
  functions := distinct_firstOccurrences _
  stateNames := distinct_firstOccurrences _
  navigation := Lane.hits_vocabulary (by decide +kernel) _
  stateFrameworks := Lane.hits_vocabulary (by decide +kernel) _
  services := Lane.hits_vocabulary (by decide +kernel) _
  deepLinks := Lane.hits_vocabulary (by decide +kernel) _
  persistedKeys := distinct_firstOccurrences _
  payloadKeys := distinct_firstOccurrences _

end Signals

inductive Aspect where
  | navigation
  | stateFrameworks
  | services
  | deepLinks
  | persistedKeys
  | payloadKeys

def Signals.gathered (f : Signals) : Aspect → List String
  | .navigation => f.navigation
  | .stateFrameworks => f.stateFrameworks
  | .services => f.services
  | .deepLinks => f.deepLinks
  | .persistedKeys => f.persistedKeys
  | .payloadKeys => f.payloadKeys

namespace Summary

def gathered (s : Summary) : Aspect → NameSet
  | .navigation => s.navigation
  | .stateFrameworks => s.stateFrameworks
  | .services => s.services
  | .deepLinks => s.deepLinks
  | .persistedKeys => s.persistedKeys
  | .payloadKeys => s.payloadKeys

theorem add_gathered (s : Summary) (f : Signals) (aspect : Aspect) :
    (s.add f).gathered aspect = (s.gathered aspect).insertAll (f.gathered aspect) := by
  cases aspect <;> rfl

theorem foldl_gathered (fs : List Signals) (s : Summary) (aspect : Aspect) (name : String) :
    ((fs.foldl add s).gathered aspect).contains name
      = ((s.gathered aspect).contains name
        || fs.any fun f => (f.gathered aspect).contains name) := by
  induction fs generalizing s with
  | nil => simp
  | cons f fs ih =>
    rw [List.foldl_cons, ih, add_gathered, NameSet.contains_insertAll, List.any_cons, Bool.or_assoc]

theorem get?_insertNewAll (t : Table String) (names : List String) (path name : String) :
    (names.foldl (fun t n => t.insertNew n path) t).get? name
      = (t.get? name).or (if names.contains name then some path else none) := by
  induction names generalizing t with
  | nil => simp
  | cons n names ih =>
    rw [List.foldl_cons, ih, Table.get?_insertNew, Option.or_assoc]
    by_cases h : n = name
    · simp [h]
    · simp [h, Ne.symm h]

theorem foldl_classIndex (fs : List Signals) (s : Summary) (name : String) :
    (fs.foldl add s).classIndex.get? name
      = (s.classIndex.get? name).or ((fs.find? (·.types.contains name)).map (·.path)) := by
  induction fs generalizing s with
  | nil => simp
  | cons f fs ih =>
    rw [List.foldl_cons, ih, add, get?_insertNewAll, Option.or_assoc, List.find?_cons]
    cases f.types.contains name <;> rfl

theorem foldl_perFile (fs : List Signals) (s : Summary) :
    (fs.foldl add s).perFile = s.perFile ++ fs ∧
      (fs.foldl add s).fileCount = s.fileCount + fs.length := by
  induction fs generalizing s with
  | nil => simp
  | cons f fs ih =>
    obtain ⟨hfiles, hcount⟩ := ih (s.add f)
    rw [List.foldl_cons, hfiles, hcount]
    simp [add, Nat.add_comm, Nat.add_left_comm]

def declares (name : String) (s : Source) : Bool := (Signals.ofSource s).types.contains name

theorem ofSources_gathered (files : List Source) (aspect : Aspect) (name : String) :
    ((ofSources files).gathered aspect).contains name
      = files.any fun s => ((Signals.ofSource s).gathered aspect).contains name := by
  rw [ofSources, foldl_gathered, List.any_map]
  cases aspect <;> rfl

theorem ofSources_classIndex (files : List Source) (name : String) :
    (ofSources files).classIndex.get? name = (files.find? (declares name)).map (·.path) := by
  rw [ofSources, foldl_classIndex, List.find?_map, Option.map_map]
  rfl

theorem ofSources_perFile (files : List Source) :
    (ofSources files).perFile = files.map Signals.ofSource := by
  rw [ofSources, (foldl_perFile _ _).1]
  rfl

theorem ofSources_fileCount (files : List Source) : (ofSources files).fileCount = files.length := by
  rw [ofSources, (foldl_perFile _ _).2, List.length_map]
  exact Nat.zero_add _

/-- What a summary says of the files of a project. -/
structure Covers (files : List Source) (s : Summary) : Prop where
  fileCount : s.fileCount = files.length
  perFile : s.perFile = files.map Signals.ofSource
  classIndex : ∀ name, s.classIndex.get? name = (files.find? (declares name)).map (·.path)
  indexed : ∀ name, name ∈ s.classIndex.keys ↔ ∃ f ∈ files, name ∈ (Signals.ofSource f).types

theorem ofSources_covers (files : List Source) : Covers files (ofSources files) where
  fileCount := ofSources_fileCount files
  perFile := ofSources_perFile files
  classIndex := ofSources_classIndex files
  indexed name := by
    rw [Table.mem_keys, ofSources_classIndex, Option.isSome_map, List.find?_isSome]
    simp [declares]

/-- A summary that is put together from those of two projects, of which the first one goes before
where both declare a type. -/
structure Joins (a b ab : Summary) : Prop where
  fileCount : ab.fileCount = a.fileCount + b.fileCount
  perFile : ab.perFile = a.perFile ++ b.perFile
  classIndex : ∀ name, ab.classIndex.get? name
    = (a.classIndex.get? name).or (b.classIndex.get? name)
  gathered : ∀ aspect name, (ab.gathered aspect).contains name
    = ((a.gathered aspect).contains name || (b.gathered aspect).contains name)

theorem ofSources_joins (a b : List Source) :
    Joins (ofSources a) (ofSources b) (ofSources (a ++ b)) where
  fileCount := by simp only [ofSources_fileCount, List.length_append]
  perFile := by simp only [ofSources_perFile, List.map_append]
  classIndex name := by
    simp only [ofSources_classIndex, List.find?_append, Option.map_or]
  gathered aspect name := by simp only [ofSources_gathered, List.any_append]

/-- Summaries that differ at most in the order of the files and in which of them keeps a type. -/
structure SameNames (s t : Summary) : Prop where
  gathered : ∀ aspect, s.gathered aspect = t.gathered aspect
  keys : s.classIndex.keys = t.classIndex.keys

theorem ofSources_sameNames {a b : List Source} (h : a.Perm b) :
    SameNames (ofSources a) (ofSources b) where
  gathered aspect := NameSet.ext_contains fun name => by
    rw [ofSources_gathered, ofSources_gathered, h.any_eq]
  keys := Table.keys_eq fun name => by
    rw [ofSources_classIndex, ofSources_classIndex, Option.isSome_map, Option.isSome_map,
      Bool.eq_iff_iff, List.find?_isSome, List.find?_isSome]
    simp only [h.mem_iff]

/-- Files are summarised one by one, projects put together are summarised by their summaries, and
the order of the files decides only which of them keeps a type that several declare. -/
theorem ofSources_homomorphic (a b : List Source) :
    (∀ s, Signals.Describes s (Signals.ofSource s)) ∧ Covers a (ofSources a) ∧
      Joins (ofSources a) (ofSources b) (ofSources (a ++ b)) ∧
      ∀ c, a.Perm c → SameNames (ofSources a) (ofSources c) :=
  ⟨Signals.ofSource_describes, ofSources_covers a, ofSources_joins a b,
    fun _ => ofSources_sameNames⟩

def userModel : Source := ⟨"model/User.kt", .kotlin, "class User(val retrofit: Retrofit)"⟩

def userScreen : Source := ⟨"ui/User.kt", .kotlin, "class User { fun load() { Navigate(User) } }"⟩

theorem users_homomorphic : [userModel, userScreen].Perm [userScreen, userModel] ∧
    SameNames (ofSources [userModel, userScreen]) (ofSources [userScreen, userModel]) ∧
    (ofSources [userModel, userScreen]).classIndex.get? "User" = some "model/User.kt" ∧
    (ofSources [userScreen, userModel]).classIndex.get? "User" = some "ui/User.kt" := by
  have hperm : [userModel, userScreen].Perm [userScreen, userModel] := .swap userScreen userModel []
  exact ⟨hperm, (ofSources_homomorphic [userModel, userScreen] []).2.2.2 _ hperm,
    by decide +kernel, by decide +kernel⟩

end Summary

end Crosswalk
