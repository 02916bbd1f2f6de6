import Crosswalk.Proofs.Pattern.Matching
import Crosswalk.Proofs.Text.Words
import Crosswalk.Rules.Substitution

namespace Crosswalk

namespace Pattern

open Text

variable {α β : Type}

theorem run_sequence (p : Pattern) (ps : List Pattern) (start : Place) (caps : Captures)
    (k : Place → Captures → Option α) : (sequence (p :: ps)).run start caps k
      = p.run start caps fun q caps => (sequence ps).run q caps k := by
  cases ps <;> rfl

theorem run_anyOf (ps : List Pattern) (start : Place) (caps : Captures)
    (k : Place → Captures → Option α) :
    (anyOf ps).run start caps k = ps.findSome? fun p => p.run start caps k := by
  induction ps with
  | nil =>
    obtain ⟨before, after⟩ := start
    cases after <;> rfl
  | cons p ps ih =>
    rw [List.findSome?_cons]
    cases ps with
    | nil =>
      change p.run start caps k = _
      cases p.run start caps k <;> rfl
    | cons q ps =>
      change (p.run start caps k <|> (anyOf (q :: ps)).run start caps k) = _
      rw [ih]
      cases p.run start caps k <;> rfl

theorem run_text (s : String) (start : Place) (caps : Captures) (k : Place → Captures → Option α) :
    (text s).run start caps k = (s.toList.isPrefixOf? start.after).bind fun rest =>
      k ⟨s.toList.reverse ++ start.before, rest⟩ caps := by
  rw [text]
  induction s.toList generalizing start with
  | nil => rfl
  | cons c s ih =>
    obtain ⟨before, after⟩ := start
    rw [List.map_cons, run_sequence]
    cases after with
    | nil => rfl
    | cons d after =>
      by_cases hc : d = c
      · simp [char, run, ih, hc, List.isPrefixOf?]
      · simp [char, run, hc, Ne.symm hc, List.isPrefixOf?]

end Pattern

namespace Spelling

open Text

theorem matchAt_words (ws : List String) (start : Place) :
    (wholeWord (Pattern.texts ws)).matchAt start = if start.atBoundary = true then
      ws.findSome? fun w => (w.toList.isPrefixOf? start.after).bind fun rest =>
        if Place.atBoundary ⟨w.toList.reverse ++ start.before, rest⟩ = true then
          some ⟨start, ⟨w.toList.reverse ++ start.before, rest⟩, []⟩
        else none
      else none := by
  rw [wholeWord, Pattern.matchAt, Pattern.run_sequence, Pattern.run]
  split
  · rw [Pattern.run_sequence, Pattern.texts, Pattern.run_anyOf, List.findSome?_map]
    simp only [Function.comp_def, Pattern.run_text]
    rfl
  · rfl

theorem matchAt_words_some {ws : List String} {start : Place} {m : Match}
    (h : (wholeWord (Pattern.texts ws)).matchAt start = some m) :
    start.atBoundary = true ∧ ∃ w ∈ ws, ∃ rest, start.after = w.toList ++ rest ∧
      Place.atBoundary ⟨w.toList.reverse ++ start.before, rest⟩ = true ∧
      m = ⟨start, ⟨w.toList.reverse ++ start.before, rest⟩, []⟩ := by
  rw [matchAt_words] at h
  split at h
  · next hstart =>
    obtain ⟨w, hw, hm⟩ := List.exists_of_findSome?_eq_some h
    obtain ⟨rest, hrest, hm⟩ := Option.bind_eq_some_iff.1 hm
    split at hm
    · next hstop =>
      exact ⟨hstart, w, hw, rest, (List.isPrefixOf?_eq_some_iff_append_eq.1 hrest).symm, hstop,
        (Option.some.inj hm).symm⟩
    · cases hm
  · cases h

end Spelling

namespace Text

def Opens (s : List Char) : Prop := s.head?.any isWord = false

theorem Word.not_opens {w : List Char} (h : Word w) (s : List Char) : ¬Opens (w ++ s) := by
  obtain ⟨hne, hall⟩ := h
  cases w with
  | nil => exact absurd rfl hne
  | cons c w =>
    rw [List.all_cons, Bool.and_eq_true] at hall
    simp [Opens, hall.1]

theorem Word.last {w : List Char} (h : Word w) (before : List Char) :
    (w.reverse ++ before).head?.any isWord = true := by
  have hne : w.reverse ≠ [] := by simpa using h.nonempty
  rw [List.head?_append_of_ne_nil _ hne, List.head?_eq_some_head hne, Option.any_some]
  exact List.all_eq_true.1 h.all _ (List.mem_reverse.1 (List.head_mem hne))

theorem Word.whole_unique {u v s t : List Char} (hu : Word u) (hv : Word v) (hs : Opens s)
    (ht : Opens t) (h : u ++ s = v ++ t) : u = v ∧ s = t := by
  have htake {w r : List Char} (hw : Word w) (hr : Opens r) : (w ++ r).takeWhile isWord = w := by
    rw [List.takeWhile_append_of_pos (List.all_eq_true.1 hw.all)]
    cases r with
    | nil => simp
    | cons c r => rw [List.takeWhile_cons_of_neg (by simpa [Opens] using hr), List.append_nil]
  have heq : u = v := by rw [← htake hu hs, h, htake hv ht]
  subst heq
  exact ⟨rfl, List.append_cancel_left h⟩

end Text

namespace Spelling

open Text

variable {ws : List String}

theorem atBoundary_opens {before s : List Char} (h : before.head?.any isWord = true) :
    Place.atBoundary ⟨before, s⟩ = true ↔ Opens s := by
  simp only [Place.atBoundary, isBoundary, h, Opens]
  cases s.head?.any isWord <;> decide

theorem not_mem_of_other (hws : ∀ w ∈ ws, Word w.toList) {c : Char} (hc : isWord c = false) :
    String.ofList [c] ∉ ws := by
  intro hmem
  have hall := (hws _ hmem).all
  rw [String.toList_ofList, List.all_cons, hc] at hall
  cases hall

theorem matchAt_opens (hws : ∀ w ∈ ws, Word w.toList) {start : Place} (h : Opens start.after) :
    (wholeWord (Pattern.texts ws)).matchAt start = none := by
  refine Option.eq_none_iff_forall_ne_some.2 fun m hm => ?_
  obtain ⟨-, w, hw, rest, hafter, -⟩ := matchAt_words_some hm
  exact (hws w hw).not_opens rest (hafter ▸ h)

theorem matchAt_inside {start : Place} (hbefore : start.before.head?.any isWord = true)
    (hafter : ¬Opens start.after) : (wholeWord (Pattern.texts ws)).matchAt start = none := by
  refine Option.eq_none_iff_forall_ne_some.2 fun m hm => ?_
  exact hafter ((atBoundary_opens hbefore).1 (matchAt_words_some hm).1)

theorem matchAt_word (hws : ∀ w ∈ ws, Word w.toList) {last : Option Char} {u s : List Char}
    (hlast : last.any isWord = false) (hu : Word u) (hs : Opens s) :
    (wholeWord (Pattern.texts ws)).matchAt (.behind last (u ++ s)) = if String.ofList u ∈ ws then
      some ⟨.behind last (u ++ s), ⟨u.reverse ++ last.toList, s⟩, []⟩ else none := by
  have hmatch {m : Match}
      (hm : (wholeWord (Pattern.texts ws)).matchAt (.behind last (u ++ s)) = some m) :
      String.ofList u ∈ ws ∧ m = ⟨.behind last (u ++ s), ⟨u.reverse ++ last.toList, s⟩, []⟩ := by
    obtain ⟨-, w, hw, rest, hafter, hstop, rfl⟩ := matchAt_words_some hm
    have hopens := (atBoundary_opens ((hws w hw).last _)).1 hstop
    obtain ⟨rfl, rfl⟩ := hu.whole_unique (hws w hw) hs hopens hafter
    exact ⟨by rwa [String.ofList_toList], rfl⟩
  split
  · next hmem =>
    cases hm : (wholeWord (Pattern.texts ws)).matchAt (.behind last (u ++ s)) with
    | some m => rw [(hmatch hm).2]
    | none =>
      have hstart : (Place.behind last (u ++ s)).atBoundary = true := by
        have hhead := hu.not_opens s
        rw [Opens, Bool.not_eq_false] at hhead
        simp only [Place.atBoundary, Place.behind, isBoundary, hhead]
        cases last <;> simp_all
      have hprefix : u.isPrefixOf? (u ++ s) = some s :=
        List.isPrefixOf?_eq_some_iff_append_eq.2 rfl
      rw [matchAt_words, if_pos hstart, List.findSome?_eq_none_iff] at hm
      have hnone := hm _ hmem
      rw [String.toList_ofList, Place.behind, hprefix, Option.bind_some,
        if_pos ((atBoundary_opens (hu.last _)).2 hs)] at hnone
      cases hnone
  · next hmem =>
    exact Option.eq_none_iff_forall_ne_some.2 fun m hm => hmem (hmatch hm).1

section Scan

variable {β : Type}

def tally (plain : Char → List β) (hit : List Char → List β) (pieces : List Piece) : List β :=
  pieces.flatMap fun
    | .plain c => plain c
    | .hit m => hit m.text

theorem scanFrom_plain {p : Pattern} (closed : Bool) {last : Option Char} {c : Char} {s : List Char}
    (h : p.matchAt (.behind last (c :: s)) = none) :
    p.scanFrom 0 closed last (c :: s) = .plain c :: p.scanFrom 0 false (some c) s := by
  rw [Pattern.scanFrom, h]

theorem scanFrom_hit {p : Pattern} (closed : Bool) {last : Option Char} {c : Char} {v s : List Char}
    {m : Match} (h : p.matchAt (.behind last (c :: s)) = some m) (htext : m.text = c :: v) :
    p.scanFrom 0 closed last (c :: s) = .hit m :: p.scanFrom v.length true (some c) s := by
  have hlength : m.text.length = v.length + 1 := by rw [htext, List.length_cons]
  simp only [Pattern.scanFrom, h, hlength]

theorem scanFrom_other (hws : ∀ w ∈ ws, Word w.toList) (closed : Bool) (last : Option Char)
    {c : Char} (hc : isWord c = false) (s : List Char) :
    (wholeWord (Pattern.texts ws)).scanFrom 0 closed last (c :: s)
      = .plain c :: (wholeWord (Pattern.texts ws)).scanFrom 0 false (some c) s :=
  scanFrom_plain closed (matchAt_opens hws (by simpa [Opens, Place.behind] using hc))

theorem scanFrom_inside (ws : List String) (closed : Bool) {c : Char} (hc : isWord c = true)
    {v : List Char}
    (hv : v.all isWord = true) (s : List Char) :
    ∃ closed' c', (wholeWord (Pattern.texts ws)).scanFrom 0 closed (some c) (v ++ s)
      = v.map .plain ++ (wholeWord (Pattern.texts ws)).scanFrom 0 closed' (some c') s := by
  induction v generalizing c closed with
  | nil => exact ⟨closed, c, rfl⟩
  | cons d v ih =>
    rw [List.all_cons, Bool.and_eq_true] at hv
    obtain ⟨closed', c', hscan⟩ := ih false hv.1 hv.2
    have hnone : (wholeWord (Pattern.texts ws)).matchAt (.behind (some c) (d :: v ++ s)) = none :=
      matchAt_inside (by simpa [Place.behind] using hc) (by simp [Opens, Place.behind, hv.1])
    refine ⟨closed', c', ?_⟩
    rw [List.cons_append] at hnone ⊢
    rw [scanFrom_plain closed hnone, hscan]
    rfl

theorem scanFrom_skip (p : Pattern) (c : Char) (v s : List Char) :
    ∃ c', p.scanFrom v.length true (some c) (v ++ s) = p.scanFrom 0 true (some c') s := by
  induction v generalizing c with
  | nil => exact ⟨c, rfl⟩
  | cons d v ih =>
    obtain ⟨c', hscan⟩ := ih d
    exact ⟨c', by rw [List.cons_append, List.length_cons, Pattern.scanFrom, hscan]⟩

theorem opens_flatten {l : List (List Char)} (hl : ∀ w ∈ l, IsPiece w)
    (h : ∀ w ∈ l.head?, ¬Word w) : Opens l.flatten := by
  cases l with
  | nil => rfl
  | cons w l =>
    obtain hword | ⟨c, rfl, hc⟩ := hl w List.mem_cons_self
    · exact absurd hword (h w rfl)
    · simpa [Opens] using hc

theorem scanFrom_word (hws : ∀ w ∈ ws, Word w.toList) (plain : Char → List β)
    (hit : List Char → List β) (closed : Bool) {last : Option Char} (hlast : last.any isWord = false)
    {u s : List Char} (hu : Word u) (hs : Opens s) :
    ∃ closed' c', tally plain hit ((wholeWord (Pattern.texts ws)).scanFrom 0 closed last (u ++ s))
      = (if String.ofList u ∈ ws then hit u else u.flatMap plain)
        ++ tally plain hit ((wholeWord (Pattern.texts ws)).scanFrom 0 closed' (some c') s) := by
  have hmatch := matchAt_word hws hlast hu hs
  cases u with
  | nil => exact absurd rfl hu.nonempty
  | cons c v =>
    have hall := hu.all
    rw [List.all_cons, Bool.and_eq_true] at hall
    split
    · next hmem =>
      obtain ⟨c', hskip⟩ := scanFrom_skip (wholeWord (Pattern.texts ws)) c v s
      have htext : Match.text ⟨.behind last (c :: v ++ s), ⟨(c :: v).reverse ++ last.toList, s⟩, []⟩
          = c :: v := Pattern.since_append ..
      rw [if_pos hmem] at hmatch
      rw [List.cons_append] at hmatch htext ⊢
      refine ⟨true, c', ?_⟩
      rw [scanFrom_hit closed hmatch htext, hskip]
      simp only [tally, List.flatMap_cons, htext]
    · next hmem =>
      obtain ⟨closed', c', hinside⟩ := scanFrom_inside ws false hall.1 hall.2 s
      rw [if_neg hmem] at hmatch
      rw [List.cons_append] at hmatch ⊢
      refine ⟨closed', c', ?_⟩
      rw [scanFrom_plain closed hmatch, hinside]
      simp only [tally, List.flatMap_cons, List.flatMap_append, List.flatMap_map,
        List.append_assoc]

/-- A scan takes the pieces of a text one by one: a word of the list is a match, and everything else
is plain. -/
theorem scanFrom_words (hws : ∀ w ∈ ws, Word w.toList) (plain : Char → List β)
    (hit : List Char → List β) {l : List (List Char)} (hl : Cut l) (closed : Bool)
    {last : Option Char} (hlast : last.any isWord = true → ∀ w ∈ l.head?, ¬Word w) :
    tally plain hit ((wholeWord (Pattern.texts ws)).scanFrom 0 closed last l.flatten)
      = l.flatMap fun w => if String.ofList w ∈ ws then hit w else w.flatMap plain := by
  induction l generalizing closed last with
  | nil =>
    rw [List.flatten_nil, Pattern.scanFrom, matchAt_opens hws (show Opens [] from rfl)]
    rfl
  | cons w l ih =>
    obtain ⟨hnext, hchain⟩ := List.isChain_cons.1 hl.apart
    have htail : Cut l := ⟨fun v hv => hl.pieces v (List.mem_cons_of_mem _ hv), hchain⟩
    rw [List.flatten_cons, List.flatMap_cons]
    obtain hword | ⟨c, rfl, hc⟩ := hl.pieces w List.mem_cons_self
    · have hnext : ∀ v ∈ l.head?, ¬Word v := fun v hv hv' => hnext v hv ⟨hword, hv'⟩
      have hout : last.any isWord = false :=
        Bool.eq_false_iff.2 fun hin => hlast hin w rfl hword
      obtain ⟨closed', c', hscan⟩ := scanFrom_word hws plain hit closed hout hword
        (opens_flatten htail.pieces hnext)
      rw [hscan, ih htail closed' fun _ => hnext]
    · have hout : (some c).any isWord = true → ∀ v ∈ l.head?, ¬Word v := by
        intro hin
        rw [Option.any_some, hc] at hin
        cases hin
      rw [List.singleton_append, scanFrom_other hws closed last hc, ← ih htail false hout,
        if_neg (not_mem_of_other hws hc)]
      simp [tally]

theorem scan_words (hws : ∀ w ∈ ws, Word w.toList) (plain : Char → List β)
    (hit : List Char → List β) (s : List Char) :
    tally plain hit ((wholeWord (Pattern.texts ws)).scan s)
      = (pieces s).flatMap fun w => if String.ofList w ∈ ws then hit w else w.flatMap plain := by
  have hscan := scanFrom_words hws plain hit (pieces_cut s) false
    (fun (h : (none : Option Char).any isWord = true) => by cases h)
  rwa [pieces_flatten] at hscan

/-- Replacing the matches by their texts is replacing words. -/
theorem replaceAll_words (hws : ∀ w ∈ ws, Word w.toList) {f : Match → List Char}
    {g : String → String} (hf : ∀ m : Match, f m = (g (String.ofList m.text)).toList) (s : List Char) :
    (wholeWord (Pattern.texts ws)).replaceAll f s
      = mapWords (fun w => if w ∈ ws then g w else w) s := by
  have htally : (wholeWord (Pattern.texts ws)).replaceAll f s = tally ([·])
      (fun w => (g (String.ofList w)).toList) ((wholeWord (Pattern.texts ws)).scan s) := by
    refine List.flatMap_congr fun x _ => ?_
    cases x with
    | plain c => rfl
    | hit m => exact hf m
  rw [htally, scan_words hws, mapWords]
  refine List.flatMap_congr fun w hw => ?_
  rw [List.flatMap_singleton']
  obtain hword | ⟨c, rfl, hc⟩ := (pieces_cut s).pieces w hw
  · rw [hword.onWord]
    split
    · rfl
    · exact String.toList_ofList.symm
  · rw [if_neg (not_mem_of_other hws hc), onWord, if_neg (by simp [hc])]

theorem findAll_words (hws : ∀ w ∈ ws, Word w.toList) (s : List Char) :
    ((wholeWord (Pattern.texts ws)).findAll s).map (fun m => String.ofList m.text)
      = (words s).filter (· ∈ ws) := by
  have htally : ((wholeWord (Pattern.texts ws)).findAll s).map (fun m => String.ofList m.text)
      = tally (fun _ => []) (fun w => [String.ofList w]) ((wholeWord (Pattern.texts ws)).scan s) := by
    rw [Pattern.findAll, List.map_filterMap, List.filterMap_eq_flatMap_toList]
    refine List.flatMap_congr fun x _ => ?_
    cases x <;> rfl
  have hpieces {l : List (List Char)} (hl : ∀ w ∈ l, IsPiece w) :
      (l.flatMap fun w => if String.ofList w ∈ ws then [String.ofList w] else w.flatMap fun _ => [])
        = ((l.filter (·.all isWord)).map String.ofList).filter (· ∈ ws) := by
    induction l with
    | nil => rfl
    | cons w l ih =>
      have ih := ih fun v hv => hl v (List.mem_cons_of_mem _ hv)
      rw [List.flatMap_cons, ih]
      obtain hword | ⟨c, rfl, hc⟩ := hl w List.mem_cons_self
      · simp only [List.filter_cons, hword.all, if_true, List.map_cons]
        by_cases hmem : String.ofList w ∈ ws <;> simp [hmem]
      · rw [List.filter_cons_of_neg (by simp [hc]), if_neg (not_mem_of_other hws hc)]
        rfl
  rw [htally, scan_words hws, hpieces (pieces_cut s).pieces, words]

theorem head?_scanFrom (p : Pattern) (last : Option Char) (s : List Char) :
    ((p.scanFrom 0 false last s).filterMap Piece.match?).head? = p.findFrom last s := by
  induction s generalizing last with
  | nil =>
    rw [Pattern.scanFrom, Pattern.findFrom]
    cases p.matchAt (.behind last []) <;> rfl
  | cons c s ih =>
    rw [Pattern.scanFrom, Pattern.findFrom]
    cases p.matchAt (.behind last (c :: s)) with
    | none => exact ih (some c)
    | some m =>
      simp only
      cases m.text.length <;> rfl

theorem occursIn_words (hws : ∀ w ∈ ws, Word w.toList) (s : List Char) :
    (wholeWord (Pattern.texts ws)).occursIn s = (words s).any (· ∈ ws) := by
  have hfirst : ((wholeWord (Pattern.texts ws)).findAll s).head?
      = (wholeWord (Pattern.texts ws)).find? s := head?_scanFrom _ none s
  have hfound := congrArg (·.head?.isSome) (findAll_words hws s)
  simp only [List.head?_map, Option.isSome_map, hfirst] at hfound
  rw [Pattern.occursIn, hfound, List.head?_filter, Bool.eq_iff_iff, List.find?_isSome,
    List.any_eq_true]

end Scan

end Spelling

end Crosswalk
