import Mathlib
import Crosswalk.Text.Word

namespace Crosswalk.Text

structure Word (w : List Char) : Prop where
  nonempty : w ≠ []
  all : w.all isWord = true

instance (w : List Char) : Decidable (Word w) :=
  decidable_of_iff (w ≠ [] ∧ w.all isWord = true) ⟨fun h => ⟨h.1, h.2⟩, fun h => ⟨h.1, h.2⟩⟩

/-- A word, or a single character that is in no word. -/
def IsPiece (w : List Char) : Prop := Word w ∨ ∃ c, w = [c] ∧ isWord c = false

structure Cut (l : List (List Char)) : Prop where
  pieces : ∀ w ∈ l, IsPiece w
  apart : l.IsChain fun a b => ¬(Word a ∧ Word b)

def joined (a b : Char) : Bool := isWord a && isWord b

def pieces (s : List Char) : List (List Char) := s.splitBy joined

theorem pieces_flatten (s : List Char) : (pieces s).flatten = s := List.flatten_splitBy joined s

theorem Word.isChain {w : List Char} (h : Word w) : w.IsChain fun a b => joined a b = true := by
  refine List.Pairwise.isChain (List.pairwise_of_forall_mem_list fun a ha b hb => ?_)
  rw [joined, List.all_eq_true.1 h.all a ha, List.all_eq_true.1 h.all b hb]
  rfl

theorem word_of_isChain {c : Char} {w : List Char} (hc : isWord c = true)
    (h : (c :: w).IsChain fun a b => joined a b = true) : Word (c :: w) := by
  refine ⟨List.cons_ne_nil c w, ?_⟩
  induction w generalizing c with
  | nil => simp [hc]
  | cons d w ih =>
    obtain ⟨hjoined, hrest⟩ := List.isChain_cons_cons.1 h
    rw [joined, Bool.and_eq_true] at hjoined
    rw [List.all_cons, hc, ih hjoined.2 hrest]
    rfl

theorem isPiece_of_isChain {w : List Char} (hne : w ≠ [])
    (h : w.IsChain fun a b => joined a b = true) : IsPiece w := by
  cases w with
  | nil => exact absurd rfl hne
  | cons c w =>
    cases hc : isWord c with
    | true => exact .inl (word_of_isChain hc h)
    | false =>
      cases w with
      | nil => exact .inr ⟨c, rfl, hc⟩
      | cons d w =>
        have hjoined := (List.isChain_cons_cons.1 h).1
        rw [joined, hc] at hjoined
        cases hjoined

theorem pieces_cut (s : List Char) : Cut (pieces s) := by
  have hpieces : ∀ w ∈ pieces s, IsPiece w := fun w hw =>
    isPiece_of_isChain (List.ne_nil_of_mem_splitBy hw) (List.isChain_of_mem_splitBy hw)
  refine ⟨hpieces, (List.isChain_getLast_head_splitBy joined s).imp ?_⟩
  rintro a b ⟨ha, hb, hjoined⟩ ⟨hworda, hwordb⟩
  rw [joined, List.all_eq_true.1 hworda.all _ (List.getLast_mem ha),
    List.all_eq_true.1 hwordb.all _ (List.head_mem hb)] at hjoined
  cases hjoined

theorem IsPiece.nonempty {w : List Char} (h : IsPiece w) : w ≠ [] := by
  obtain h | ⟨c, rfl, -⟩ := h
  · exact h.nonempty
  · exact List.cons_ne_nil c []

theorem IsPiece.isChain {w : List Char} (h : IsPiece w) :
    w.IsChain fun a b => joined a b = true := by
  obtain h | ⟨c, rfl, -⟩ := h
  · exact h.isChain
  · exact List.isChain_singleton c

theorem IsPiece.word_of_mem {w : List Char} (h : IsPiece w) {c : Char} (hc : c ∈ w)
    (hword : isWord c = true) : Word w := by
  obtain h | ⟨d, rfl, hd⟩ := h
  · exact h
  · rw [List.mem_singleton.1 hc, hd] at hword
    cases hword

/-- There is one way only to cut a text. -/
theorem Cut.pieces_flatten {l : List (List Char)} (h : Cut l) : Text.pieces l.flatten = l := by
  refine List.splitBy_flatten (fun hnil => (h.pieces _ hnil).nonempty rfl)
    (fun w hw => (h.pieces w hw).isChain) (h.apart.imp_of_mem_imp fun a b ha hb hapart => ?_)
  have hb := h.pieces b hb
  have ha := h.pieces a ha
  refine ⟨ha.nonempty, hb.nonempty, Bool.eq_false_iff.2 fun hjoined => ?_⟩
  rw [joined, Bool.and_eq_true] at hjoined
  exact hapart ⟨ha.word_of_mem (List.getLast_mem _) hjoined.1,
    hb.word_of_mem (List.head_mem _) hjoined.2⟩

def words (s : List Char) : List String := ((pieces s).filter (·.all isWord)).map String.ofList

def onWord (f : String → String) (w : List Char) : List Char :=
  if w.all isWord then (f (String.ofList w)).toList else w

/-- Replace every word. What stands between the words stays. -/
def mapWords (f : String → String) (s : List Char) : List Char := (pieces s).flatMap (onWord f)

def KeepsWords (f : String → String) : Prop := ∀ w : String, Word w.toList → Word (f w).toList

section Map

variable {f g : String → String}

theorem KeepsWords.comp (hg : KeepsWords g) (hf : KeepsWords f) : KeepsWords (g ∘ f) :=
  fun w hw => hg _ (hf w hw)

theorem Word.onWord {w : List Char} (h : Word w) (f : String → String) :
    Text.onWord f w = (f (String.ofList w)).toList := by
  rw [Text.onWord, if_pos h.all]

theorem IsPiece.onWord {w : List Char} (h : IsPiece w) (hf : KeepsWords f) :
    IsPiece (Text.onWord f w) ∧ (Word (Text.onWord f w) ↔ Word w) := by
  obtain h | ⟨c, rfl, hc⟩ := h
  · have hword : Word (f (String.ofList w)).toList := hf _ (by rwa [String.toList_ofList])
    rw [h.onWord]
    exact ⟨.inl hword, iff_of_true hword h⟩
  · have hother : Text.onWord f [c] = [c] := if_neg (by simp [hc])
    rw [hother]
    exact ⟨.inr ⟨c, rfl, hc⟩, Iff.rfl⟩

theorem Cut.map {l : List (List Char)} (h : Cut l) (hf : KeepsWords f) : Cut (l.map (onWord f)) := by
  refine ⟨fun w hw => ?_, (List.isChain_map _).2 ?_⟩
  · obtain ⟨v, hv, rfl⟩ := List.mem_map.1 hw
    exact ((h.pieces v hv).onWord hf).1
  · refine h.apart.imp_of_mem_imp fun a b ha hb hapart hwords => hapart ?_
    exact ⟨((h.pieces a ha).onWord hf).2.1 hwords.1, ((h.pieces b hb).onWord hf).2.1 hwords.2⟩

theorem pieces_mapWords (hf : KeepsWords f) (s : List Char) :
    pieces (mapWords f s) = (pieces s).map (onWord f) := by
  rw [mapWords, List.flatMap_def]
  exact ((pieces_cut s).map hf).pieces_flatten

theorem IsPiece.all_iff {w : List Char} (h : IsPiece w) : w.all isWord = true ↔ Word w :=
  ⟨fun hall => ⟨h.nonempty, hall⟩, Word.all⟩

theorem mem_words {s : List Char} {w : String} :
    w ∈ words s ↔ w.toList ∈ pieces s ∧ Word w.toList := by
  simp only [words, List.mem_map, List.mem_filter]
  constructor
  · rintro ⟨v, ⟨hv, hall⟩, rfl⟩
    rw [String.toList_ofList]
    exact ⟨hv, ((pieces_cut s).pieces v hv).all_iff.1 hall⟩
  · rintro ⟨hw, hword⟩
    exact ⟨w.toList, ⟨hw, hword.all⟩, String.ofList_toList⟩

theorem words_of_word {w : String} (h : Word w.toList) : words w.toList = [w] := by
  have hcut : Cut [w.toList] := ⟨fun v hv => .inl (List.mem_singleton.1 hv ▸ h), by simp⟩
  have hpieces := hcut.pieces_flatten
  rw [List.flatten_singleton] at hpieces
  simp only [words, hpieces, List.filter_cons, h.all, if_true, List.filter_nil,
    List.map_singleton, String.ofList_toList]

example : words "let id: User.Id".toList = ["let", "id", "User", "Id"] := by decide +kernel

theorem words_mapWords (hf : KeepsWords f) (s : List Char) :
    words (mapWords f s) = (words s).map f := by
  have hall : ∀ w ∈ pieces s, ((·.all isWord) ∘ onWord f) w = w.all isWord := by
    intro w hw
    have hpiece := (pieces_cut s).pieces w hw
    have honWord := hpiece.onWord hf
    rw [Function.comp_apply, Bool.eq_iff_iff, honWord.1.all_iff, hpiece.all_iff]
    exact honWord.2
  rw [words, pieces_mapWords hf, List.filter_map, List.map_map, words, List.map_map,
    List.filter_congr hall]
  refine List.map_congr_left fun w hw => ?_
  rw [Function.comp_apply, Function.comp_apply, onWord, if_pos (List.mem_filter.1 hw).2,
    String.ofList_toList]

/-- Two replacements one after the other are one. -/
theorem mapWords_mapWords (g : String → String) (hf : KeepsWords f) (s : List Char) :
    mapWords g (mapWords f s) = mapWords (g ∘ f) s := by
  rw [mapWords, pieces_mapWords hf, List.flatMap_map, mapWords]
  refine List.flatMap_congr fun w hw => ?_
  obtain h | ⟨c, rfl, hc⟩ := (pieces_cut s).pieces w hw
  · have hword : Word (f (String.ofList w)).toList := hf _ (by rwa [String.toList_ofList])
    rw [h.onWord, h.onWord, hword.onWord, String.ofList_toList]
    rfl
  · simp [onWord, hc]

theorem mapWords_congr {s : List Char} (h : ∀ w ∈ words s, f w = g w) :
    mapWords f s = mapWords g s := by
  refine List.flatMap_congr fun w hw => ?_
  obtain hword | ⟨c, rfl, hc⟩ := (pieces_cut s).pieces w hw
  · have hmem : String.ofList w ∈ words s :=
      mem_words.2 (by rw [String.toList_ofList]; exact ⟨hw, hword⟩)
    rw [hword.onWord, hword.onWord, h _ hmem]
  · simp [onWord, hc]

theorem mapWords_self {s : List Char} (h : ∀ w ∈ words s, f w = w) : mapWords f s = s := by
  have hpieces : ∀ w ∈ pieces s, onWord id w = w := by
    intro w _
    unfold onWord
    split
    · exact String.toList_ofList
    · rfl
  rw [mapWords_congr (g := id) h, mapWords, List.flatMap_congr hpieces, List.flatMap_id',
    pieces_flatten]

theorem mapWords_eq_self (hf : KeepsWords f) {s : List Char} :
    mapWords f s = s ↔ ∀ w ∈ words s, f w = w := by
  refine ⟨fun h => ?_, mapWords_self⟩
  have hwords := words_mapWords hf s
  rw [h] at hwords
  exact List.map_inj_left.1 (hwords.symm.trans (List.map_id _).symm)

/-- Replacement goes on by itself on either side of a character that is in no word. -/
theorem mapWords_apart {c : Char} (hc : isWord c = false) (f : String → String)
    (before after : List Char) :
    mapWords f (before ++ c :: after) = mapWords f before ++ c :: mapWords f after := by
  have hother : ¬Word [c] := fun h => by simpa [hc] using h.all
  have hcut : Cut (pieces before ++ [c] :: pieces after) := by
    refine ⟨fun w hw => ?_, List.isChain_append.2 ⟨(pieces_cut before).apart, ?_, ?_⟩⟩
    · rcases List.mem_append.1 hw with hw | hw
      · exact (pieces_cut before).pieces w hw
      · rcases List.mem_cons.1 hw with rfl | hw
        · exact .inr ⟨c, rfl, hc⟩
        · exact (pieces_cut after).pieces w hw
    · exact List.isChain_cons.2 ⟨fun _ _ h => hother h.1, (pieces_cut after).apart⟩
    · intro a _ b hb h
      exact hother (Option.some.inj hb ▸ h.2)
  have hflatten : (pieces before ++ [c] :: pieces after).flatten = before ++ c :: after := by
    simp [pieces_flatten]
  have hpieces := hcut.pieces_flatten
  rw [hflatten] at hpieces
  rw [mapWords, hpieces, List.flatMap_append, List.flatMap_cons, onWord, if_neg (by simp [hc])]
  rfl

end Map

end Crosswalk.Text
