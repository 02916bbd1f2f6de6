import Crosswalk.Proofs.Candidate
import Crosswalk.Proofs.Names.Scanner
import Crosswalk.Proofs.Pattern.Avoiding
import Crosswalk.Proofs.Text.Lines

namespace Crosswalk

namespace Pattern

theorem Leads.text {w : String} {start stop : Place} {caps caps' : Captures}
    (h : (Pattern.text w).Leads start caps stop caps') : start.after = w.toList ++ stop.after := by
  rw [Pattern.text] at h
  generalize w.toList = cs at h ⊢
  induction cs generalizing start caps with
  | nil =>
    cases h
    rfl
  | cons c cs ih =>
    obtain ⟨next, caps'', hfirst, hrest⟩ := h.sequence
    cases hfirst with
    | one hc =>
      obtain rfl := eq_of_beq hc
      exact congrArg (_ :: ·) (ih hrest)

end Pattern

namespace Rules

open Pattern

def fence : List Char := "\x60\x60\x60".toList

theorem findFrom_codeFence {s : List Char} (h : ¬fence <:+: s) (last : Option Char) :
    codeFence.findFrom last s = none := by
  refine Option.eq_none_iff_forall_ne_some.2 fun m hm => h ?_
  obtain ⟨hsuffix, hleads⟩ := findFrom_leads hm
  cases hleads with
  | seq hfence _ =>
    have hopens : fence <+: m.start.after := ⟨_, hfence.text.symm⟩
    exact hopens.isInfix.trans hsuffix.isInfix

theorem matchAt_codeFence {tag : List Char} (htag : ∀ c ∈ tag, isFenceTag c = true)
    (last : Option Char) (rest : List Char) :
    ∃ m, codeFence.matchAt (.behind last (fence ++ (tag ++ '\n' :: rest))) = some m ∧
      m.text = fence ++ tag := by
  have htake : (tag ++ '\n' :: rest).takeWhile isFenceTag = tag := by
    rw [List.takeWhile_append_of_pos htag, List.takeWhile_cons_of_neg (by decide), List.append_nil]
  have hdrop : (tag ++ '\n' :: rest).dropWhile isFenceTag = '\n' :: rest := by
    rw [List.dropWhile_append_of_pos htag, List.dropWhile_cons_of_neg (by decide)]
  have hopens : fence.isPrefixOf? (fence ++ (tag ++ '\n' :: rest)) = some (tag ++ '\n' :: rest) :=
    List.isPrefixOf?_eq_some_iff_append_eq.2 rfl
  refine ⟨⟨.behind last (fence ++ (tag ++ '\n' :: rest)),
    ⟨(fence ++ tag).reverse ++ last.toList, '\n' :: rest⟩, []⟩, ?_, since_append ..⟩
  simp only [matchAt, codeFence, run, run_text, Place.behind]
  change (fence.isPrefixOf? _).bind _ = _
  rw [hopens, Option.bind_some, runMany_greedy (.inl rfl), htake, hdrop, List.reverse_append,
    List.append_assoc]
  rfl

/-- What is left of a text when its fences are dropped, from behind another character on. -/
def unfenced (last : Option Char) (s : List Char) : List Char :=
  patched (fun _ => []) (codeFence.scanFrom 0 false last s)

theorem unfenced_free {s : List Char} (h : ¬fence <:+: s) (last : Option Char) :
    unfenced last s = s := by
  have hkept := patched_plain (fun _ => []) s []
  rw [unfenced, scanFrom_unmatched false (findFrom_codeFence h last), ← List.append_nil (s.map _),
    hkept]
  exact List.append_nil s

theorem not_fence_line {s : List Char} (h : ¬fence <:+: s) : ¬fence <:+: s ++ ['\n'] := by
  rw [List.infix_concat_iff, List.suffix_concat_iff]
  rintro ((hnil | ⟨start, hend, -⟩) | hinside)
  · cases hnil
  · have hlast := congrArg List.getLast? hend
    rw [List.getLast?_concat] at hlast
    cases hlast
  · exact h hinside

theorem scanFrom_line (closed : Bool) (last : Option Char) {s : List Char} (h : ¬fence <:+: s)
    (rest : List Char) :
    patched (fun _ => []) (codeFence.scanFrom 0 closed last (s ++ '\n' :: rest))
      = s ++ '\n' :: unfenced (some '\n') rest := by
  rw [scanFrom_untouched (by decide) (by decide) closed
    (findFrom_codeFence (not_fence_line h) last) rest, patched_plain, List.append_assoc]
  rfl

theorem unfenced_line (last : Option Char) {s : List Char} (h : ¬fence <:+: s) (rest : List Char) :
    unfenced last (s ++ '\n' :: rest) = s ++ '\n' :: unfenced (some '\n') rest :=
  scanFrom_line false last h rest

theorem unfenced_fence (last : Option Char) {tag : List Char}
    (htag : ∀ c ∈ tag, isFenceTag c = true) (rest : List Char) :
    unfenced last (fence ++ (tag ++ '\n' :: rest)) = '\n' :: unfenced (some '\n') rest := by
  obtain ⟨m, hm, htext⟩ := matchAt_codeFence htag last rest
  have hfence : fence = '\x60' :: ['\x60', '\x60'] := rfl
  rw [hfence, List.cons_append] at hm htext ⊢
  have hskip := Spelling.scanFrom_skip codeFence '\x60' (['\x60', '\x60'] ++ tag) ('\n' :: rest)
  rw [List.append_assoc] at hskip
  obtain ⟨last', hskip⟩ := hskip
  rw [unfenced, Spelling.scanFrom_hit false hm htext, hskip]
  exact scanFrom_line true (some last') (s := []) (by decide) rest

end Rules

namespace Candidate

open Rules

def wrapped (preamble tag code epilogue : List Char) : List Char :=
  preamble ++ '\n' :: (fence ++ (tag ++ '\n' ::
    (code ++ '\n' :: (fence ++ '\n' :: epilogue))))

theorem dropFences_wrapped {preamble tag code epilogue : List Char}
    (hpreamble : ¬fence <:+: preamble) (htag : ∀ c ∈ tag, isFenceTag c = true)
    (hcode : ¬fence <:+: code) (hepilogue : ¬fence <:+: epilogue) :
    dropFences (wrapped preamble tag code epilogue)
      = preamble ++ '\n' :: '\n' :: (code ++ '\n' :: '\n' :: epilogue) := by
  have hclosing : unfenced (some '\n') (fence ++ '\n' :: epilogue)
      = '\n' :: unfenced (some '\n') epilogue :=
    unfenced_fence (some '\n') (List.forall_mem_nil _) epilogue
  have hall : dropFences (wrapped preamble tag code epilogue)
      = unfenced none (wrapped preamble tag code epilogue) := rfl
  rw [hall, wrapped, unfenced_line none hpreamble, unfenced_fence _ htag, unfenced_line _ hcode,
    hclosing, unfenced_free hepilogue]

/-- Code that an answer may hold: it has no fence, starts where code starts and ends in a closing
brace. -/
structure IsCode (d : Direction) (code : List Char) : Prop where
  unfenced : ¬fence <:+: code
  anchored : fromAnchor? d.rules code = some code
  closed : code.getLast? = some '\x7d'

/-- Prose that may stand before the code: code starts behind it only. -/
structure IsPreamble (d : Direction) (code preamble : List Char) : Prop where
  unfenced : ¬fence <:+: preamble
  anchored : fromAnchor? d.rules (preamble ++ '\n' :: '\n' :: code) = some code

/-- Prose that may stand after the code: it has no brace, and its first line does not read as
code. -/
structure IsEpilogue (epilogue : List Char) : Prop where
  unfenced : ¬fence <:+: epilogue
  unclosed : '\x7d' ∉ epilogue
  prose : ∃ line, ((Text.lines epilogue).map Text.trim).find? (!·.isEmpty) = some line ∧
    codeLikeLine.occursIn line = false

theorem fromAnchor?_closed (d : Direction) {before code : List Char} (rest : List Char)
    (h : fromAnchor? d.rules (before ++ '\x7d' :: rest) = some (code ++ '\x7d' :: rest))
    (rest' : List Char) :
    fromAnchor? d.rules (before ++ '\x7d' :: rest') = some (code ++ '\x7d' :: rest') := by
  cases d with
  | kotlinToSwift => exact Pattern.findFrom_beyond (by decide) (by decide) rest' h
  | swiftToKotlin => exact Pattern.findFrom_beyond (by decide) (by decide) rest' h

theorem IsEpilogue.not_readsAsCode {epilogue : List Char} (h : IsEpilogue epilogue) :
    readsAsCode ('\n' :: '\n' :: epilogue) = false := by
  obtain ⟨line, hline, hprose⟩ := h.prose
  have hfind : ((Text.lines ('\n' :: '\n' :: epilogue)).map Text.trim).find? (!·.isEmpty)
      = some line := by
    rw [Text.lines_newline, Text.lines_newline]
    exact hline
  rw [readsAsCode, hfind]
  exact hprose

theorem IsEpilogue.not_allBlank {epilogue : List Char} (h : IsEpilogue epilogue) :
    Text.allBlank ('\n' :: '\n' :: epilogue) = false := by
  obtain ⟨line, hline, -⟩ := h.prose
  obtain ⟨whole, hwhole, rfl⟩ := List.mem_map.1 (List.mem_of_find?_eq_some hline)
  refine Bool.eq_false_iff.2 fun hblank => ?_
  have hall : ∀ c ∈ whole, Text.isBlank c = true := fun c hc =>
    List.all_eq_true.1 hblank c
      (List.mem_cons_of_mem _ (List.mem_cons_of_mem _ (Text.mem_of_mem_lines hwhole hc)))
  have hempty : Text.trim whole = [] := by
    rw [Text.trim, Text.trimStart, List.dropWhile_eq_nil_iff.2 hall]
    rfl
  have hnonempty := List.find?_some hline
  rw [hempty] at hnonempty
  cases hnonempty

theorem dropEpilogue_prose {epilogue : List Char} (h : IsEpilogue epilogue) (code : List Char) :
    dropEpilogue (code ++ '\x7d' :: '\n' :: '\n' :: epilogue) = code ++ ['\x7d'] := by
  have hunclosed : '\x7d' ∉ '\n' :: '\n' :: epilogue := by
    simpa using h.unclosed
  simp only [dropEpilogue, Text.splitAfterLast?_append code hunclosed, h.not_allBlank,
    h.not_readsAsCode, Bool.or_self, Bool.false_eq_true, if_false]

theorem dropEpilogue_closed (code : List Char) :
    dropEpilogue (code ++ ['\x7d']) = code ++ ['\x7d'] := by
  rw [dropEpilogue, Text.splitAfterLast?_append code List.not_mem_nil]
  rfl

theorem ofChars_wrapped (d : Direction) {preamble tag code epilogue : List Char}
    (hcode : IsCode d code) (hpreamble : IsPreamble d code preamble)
    (htag : ∀ c ∈ tag, isFenceTag c = true) (hepilogue : IsEpilogue epilogue) :
    ofChars d.rules (wrapped preamble tag code epilogue) = ofChars d.rules code := by
  have hfences := dropFences_wrapped hpreamble.unfenced htag hcode.unfenced hepilogue.unfenced
  have hplain : dropFences code = code := unfenced_free hcode.unfenced none
  obtain ⟨inner, rfl⟩ := List.getLast?_eq_some_iff.1 hcode.closed
  -- The prose before the code holds no start of code, whatever follows the closing brace.
  have hanchor : fromAnchor? d.rules
      ((preamble ++ '\n' :: '\n' :: inner) ++ '\x7d' :: '\n' :: '\n' :: epilogue)
        = some (inner ++ '\x7d' :: '\n' :: '\n' :: epilogue) := by
    refine fromAnchor?_closed d [] ?_ _
    simpa using hpreamble.anchored
  have hshape : preamble ++ '\n' :: '\n' :: (inner ++ ['\x7d'] ++ '\n' :: '\n' :: epilogue)
      = (preamble ++ '\n' :: '\n' :: inner) ++ '\x7d' :: '\n' :: '\n' :: epilogue := by simp
  simp only [ofChars, hfences, hplain, hshape, hanchor, hcode.anchored,
    dropEpilogue_prose hepilogue, dropEpilogue_closed]

/-- Prose and fences around the code of an answer change nothing about the candidate. -/
theorem ofAnswer_wrapped (d : Direction) {preamble tag code epilogue : String}
    (hcode : IsCode d code.toList) (hpreamble : IsPreamble d code.toList preamble.toList)
    (htag : ∀ c ∈ tag.toList, isFenceTag c = true) (hepilogue : IsEpilogue epilogue.toList) :
    ofAnswer d (preamble ++ "\n\x60\x60\x60" ++ tag ++ "\n" ++ code ++ "\n\x60\x60\x60\n"
      ++ epilogue) = ofAnswer d code := by
  have hwrapped : (preamble ++ "\n\x60\x60\x60" ++ tag ++ "\n" ++ code ++ "\n\x60\x60\x60\n"
      ++ epilogue).toList
        = wrapped preamble.toList tag.toList code.toList epilogue.toList := by
    simp [wrapped, fence]
  rw [ofAnswer, hwrapped, ofChars_wrapped d hcode hpreamble htag hepilogue]
  rfl

theorem ofAnswer_chatty :
    (IsCode .kotlinToSwift "struct A \x7b\x7d".toList ∧
      IsPreamble .kotlinToSwift "struct A \x7b\x7d".toList "Sure, here it is:".toList ∧
      (∀ c ∈ "swift".toList, isFenceTag c = true) ∧ IsEpilogue "Hope this helps!".toList) ∧
    ofAnswer .kotlinToSwift ("Sure, here it is:" ++ "\n\x60\x60\x60" ++ "swift" ++ "\n"
      ++ "struct A \x7b\x7d" ++ "\n\x60\x60\x60\n" ++ "Hope this helps!")
      = ofAnswer .kotlinToSwift "struct A \x7b\x7d" := by
  have hcode : IsCode .kotlinToSwift "struct A \x7b\x7d".toList :=
    ⟨by decide +kernel, by decide +kernel, by decide +kernel⟩
  have hpreamble : IsPreamble .kotlinToSwift "struct A \x7b\x7d".toList "Sure, here it is:".toList :=
    ⟨by decide +kernel, by decide +kernel⟩
  have htag : ∀ c ∈ "swift".toList, isFenceTag c = true := List.all_eq_true.1 (by decide +kernel)
  have hepilogue : IsEpilogue "Hope this helps!".toList :=
    ⟨by decide +kernel, by decide +kernel, "Hope this helps!".toList, by decide +kernel,
      by decide +kernel⟩
  exact ⟨⟨hcode, hpreamble, htag, hepilogue⟩,
    ofAnswer_wrapped .kotlinToSwift hcode hpreamble htag hepilogue⟩

end Candidate

end Crosswalk
