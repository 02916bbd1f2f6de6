import Crosswalk.Proofs.Text.Lines

namespace Crosswalk.Text

theorem trim_append_blank (s : List Char) {c : Char} (hc : isBlank c = true) :
    trim (s ++ [c]) = trim s := by
  rw [trim, trim, trimStart, trimStart, List.dropWhile_append]
  split
  case isTrue hnil =>
    rw [List.isEmpty_iff.1 hnil, List.dropWhile_cons_of_pos hc, List.dropWhile_nil]
  case isFalse =>
    rw [trimEnd, trimEnd, List.reverse_append, List.reverse_singleton, List.singleton_append,
      List.dropWhile_cons_of_pos hc]

theorem head?_trimStart (s : List Char) : (trimStart s).head?.any isBlank = false := by
  cases h : (trimStart s).head? with
  | none => rfl
  | some c =>
    have hfirst := List.head?_dropWhile_not isBlank s
    rw [← trimStart, h] at hfirst
    exact hfirst

theorem trimEnd_begins (s : List Char) : trimEnd s <+: s := by
  rw [trimEnd, ← List.reverse_suffix, List.reverse_reverse]
  exact List.dropWhile_suffix isBlank

theorem head?_trim (s : List Char) : (trim s).head?.any isBlank = false := by
  have hfirst := head?_trimStart s
  obtain ⟨rest, hrest⟩ := trimEnd_begins (trimStart s)
  rw [← hrest, ← trim] at hfirst
  cases h : trim s with
  | nil => rfl
  | cons c _ => rwa [h] at hfirst

theorem getLast?_trim (s : List Char) : (trim s).getLast?.any isBlank = false := by
  rw [trim, trimEnd, List.getLast?_reverse]
  exact head?_trimStart _

theorem trim_infix (s : List Char) : trim s <:+: s :=
  (trimEnd_begins _).isInfix.trans (List.dropWhile_suffix isBlank).isInfix

theorem trim_blank_cons {c : Char} (hc : isBlank c = true) (s : List Char) :
    trim (c :: s) = trim s := by
  rw [trim, trim, trimStart, List.dropWhile_cons_of_pos hc, ← trimStart]

theorem trim_blanks {b : List Char} (hb : ∀ c ∈ b, isBlank c = true) (s : List Char) :
    trim (b ++ s) = trim s := by
  induction b with
  | nil => rfl
  | cons c b ih =>
    obtain ⟨hc, hb⟩ := List.forall_mem_cons.1 hb
    rw [List.cons_append, trim_blank_cons hc, ih hb]

theorem trim_dropReturn (line : List Char) : trim (dropReturn line) = trim line := by
  unfold dropReturn
  split
  · next hlast =>
    obtain ⟨s, rfl⟩ := List.getLast?_eq_some_iff.1 hlast
    rw [List.dropLast_concat, trim_append_blank s (by decide)]
  · rfl

theorem trim_nonempty {c : Char} (hc : isBlank c = false) (s : List Char) : trim (c :: s) ≠ [] := by
  rw [trim, trimStart, List.dropWhile_cons_of_neg (by simp [hc]), trimEnd, Ne,
    List.reverse_eq_nil_iff, List.dropWhile_eq_nil_iff]
  intro hall
  rw [hall c (by simp)] at hc
  cases hc

theorem trimEnd_append (s : List Char) : ∃ b, s = trimEnd s ++ b ∧ ∀ c ∈ b, isBlank c = true := by
  refine ⟨(s.reverse.takeWhile isBlank).reverse, ?_, fun c hc => ?_⟩
  · rw [trimEnd, ← List.reverse_append, List.takeWhile_append_dropWhile, List.reverse_reverse]
  · exact List.mem_takeWhile_imp (List.mem_reverse.1 hc)

theorem trimStart_self {s : List Char} (hs : s.head?.any isBlank = false) : trimStart s = s := by
  cases s with
  | nil => rfl
  | cons c s => exact List.dropWhile_cons_of_neg (by simpa using hs)

theorem trimEnd_blanks {p b : List Char} (hp : p.getLast?.any isBlank = false)
    (hb : ∀ c ∈ b, isBlank c = true) : trimEnd (p ++ b) = p := by
  have hhead : p.reverse.head?.any isBlank = false := by rwa [List.head?_reverse]
  rw [trimEnd, List.reverse_append,
    List.dropWhile_append_of_pos fun c hc => hb c (List.mem_reverse.1 hc), ← trimStart,
    trimStart_self hhead, List.reverse_reverse]

theorem trim_append (s : List Char) : ∃ b b', s = b ++ (trim s ++ b') ∧
    (∀ c ∈ b, isBlank c = true) ∧ ∀ c ∈ b', isBlank c = true := by
  obtain ⟨b', hs, hb'⟩ := trimEnd_append (trimStart s)
  refine ⟨s.takeWhile isBlank, b', ?_, fun c hc => List.mem_takeWhile_imp hc, hb'⟩
  rw [trim, ← hs]
  exact List.takeWhile_append_dropWhile.symm

theorem trim_self {s : List Char} (hs : s.head?.any isBlank = false)
    (hs' : s.getLast?.any isBlank = false) : trim s = s := by
  have hend := trimEnd_blanks hs' (List.forall_mem_nil _)
  rwa [List.append_nil, ← trimStart_self hs, ← trim, trimStart_self hs] at hend

theorem exists_nonblank {s : List Char} (hne : s ≠ []) (hs : s.getLast?.any isBlank = false) :
    ∃ b c rest, s = b ++ c :: rest ∧ (∀ c ∈ b, isBlank c = true) ∧ isBlank c = false := by
  have hfirst := List.head?_dropWhile_not isBlank s
  cases hrest : s.dropWhile isBlank with
  | nil =>
    have hall := List.dropWhile_eq_nil_iff.1 hrest
    rw [List.getLast?_eq_some_getLast hne, Option.any_some, hall _ (List.getLast_mem hne)] at hs
    cases hs
  | cons c rest =>
    rw [hrest] at hfirst
    refine ⟨s.takeWhile isBlank, c, rest, ?_, fun c hc => List.mem_takeWhile_imp hc,
      by simpa using hfirst⟩
    rw [← hrest, List.takeWhile_append_dropWhile]

theorem prefix_trimEnd {p s : List Char} (h : p <+: s) (hp : p.getLast?.any isBlank = false) :
    p <+: trimEnd s := by
  obtain ⟨b, hs, hb⟩ := trimEnd_append s
  obtain ⟨rest, hrest⟩ := h
  rw [hs] at hrest
  rcases List.append_eq_append_iff.1 hrest with ⟨x, hx, -⟩ | ⟨b', rfl, hb'⟩
  · exact ⟨x, hx.symm⟩
  · cases hlast : b'.getLast? with
    | none =>
      rw [List.getLast?_eq_none_iff.1 hlast, List.append_nil]
    | some c =>
      rw [List.getLast?_append, hlast, Option.some_or, Option.any_some,
        hb c (hb' ▸ List.mem_append_left _ (List.mem_of_getLast? hlast))] at hp
      cases hp

theorem unterminated_append {pieces : List (List Char)} (hne : pieces ≠ []) :
    (unterminated pieces).1 ++ [(unterminated pieces).2] = pieces := by
  induction pieces with
  | nil => exact absurd rfl hne
  | cons piece rest ih =>
    cases rest with
    | nil => rfl
    | cons next rest => exact congrArg (piece :: ·) (ih (List.cons_ne_nil next rest))

/-- The first line that has more than blanks, without the blanks around it. -/
def firstLine (s : List Char) : List Char := trim ((trimStart s).takeWhile (· != '\n'))

theorem filter_lines_pieces (s : List Char) : ((lines s).map trim).filter (!·.isEmpty)
    = ((splitAtChar '\n' s).map trim).filter (!·.isEmpty) := by
  have hpieces := unterminated_append (splitAtChar_ne_nil '\n' s)
  have htrim : trim ∘ dropReturn = trim := funext trim_dropReturn
  rw [← hpieces, lines, List.map_append, List.map_append, List.map_map, htrim, List.filter_append,
    List.filter_append]
  cases (unterminated (splitAtChar '\n' s)).2 <;> rfl

theorem find?_lines_pieces (s : List Char) : ((lines s).map trim).find? (!·.isEmpty)
    = ((splitAtChar '\n' s).map trim).find? (!·.isEmpty) := by
  rw [← List.head?_filter, filter_lines_pieces, List.head?_filter]

theorem splitAtChar_takeWhile (s : List Char) :
    ∃ rest, splitAtChar '\n' s = s.takeWhile (· != '\n') :: rest := by
  induction s with
  | nil => exact ⟨[], rfl⟩
  | cons c s ih =>
    obtain ⟨rest, hrest⟩ := ih
    rw [splitAtChar, hrest]
    split
    · next hc => exact ⟨_, by rw [List.takeWhile_cons_of_neg (by simp [hc])]⟩
    · next hc => exact ⟨rest, by rw [List.takeWhile_cons_of_pos (by simpa using hc)]⟩

theorem firstLine_blank {c : Char} (hc : isBlank c = true) (s : List Char) :
    firstLine (c :: s) = firstLine s := by
  rw [firstLine, firstLine, trimStart, List.dropWhile_cons_of_pos hc, ← trimStart]

theorem firstLine_blanks {b : List Char} (hb : ∀ c ∈ b, isBlank c = true) (s : List Char) :
    firstLine (b ++ s) = firstLine s := by
  induction b with
  | nil => rfl
  | cons c b ih =>
    obtain ⟨hc, hb⟩ := List.forall_mem_cons.1 hb
    rw [List.cons_append, firstLine_blank hc, ih hb]

theorem takeWhile_line (s : List Char) : ∃ rest, s = s.takeWhile (· != '\n') ++ rest ∧
    '\n' ∉ s.takeWhile (· != '\n') ∧ (rest = [] ∨ ∃ r, rest = '\n' :: r) := by
  refine ⟨s.dropWhile (· != '\n'), List.takeWhile_append_dropWhile.symm, fun hin => ?_, ?_⟩
  · have hmem := List.mem_takeWhile_imp hin
    simp at hmem
  · have hfirst := List.head?_dropWhile_not (· != '\n') s
    cases hrest : s.dropWhile (· != '\n') with
    | nil => exact .inl rfl
    | cons c r =>
      rw [hrest] at hfirst
      obtain rfl : c = '\n' := by simpa using hfirst
      exact .inr ⟨r, rfl⟩

section FirstLine

variable {s p : List Char} (hs : s.head?.any isBlank = false)
include hs

theorem firstLine_eq : firstLine s = trimEnd (s.takeWhile (· != '\n')) := by
  have hhead : (s.takeWhile (· != '\n')).head?.any isBlank = false := by
    cases s with
    | nil => rfl
    | cons c s =>
      rw [List.takeWhile_cons]
      split
      · exact hs
      · rfl
  rw [firstLine, trimStart_self hs, trim, trimStart_self hhead]

/-- Behind the first line are blanks, and then the text ends or a new line starts. -/
theorem firstLine_append : ∃ b rest, s = firstLine s ++ (b ++ rest) ∧ (∀ c ∈ b, isBlank c = true) ∧
    '\n' ∉ b ∧ (rest = [] ∨ ∃ r, rest = '\n' :: r) := by
  obtain ⟨b, hline, hb⟩ := trimEnd_append (s.takeWhile (· != '\n'))
  obtain ⟨rest, hs', hfree, hrest⟩ := takeWhile_line s
  refine ⟨b, rest, ?_, hb, fun hin => hfree (hline ▸ List.mem_append_right _ hin), hrest⟩
  rw [firstLine_eq hs, ← List.append_assoc, ← hline, ← hs']

theorem firstLine_of {b rest : List Char} (hsp : s = p ++ (b ++ rest)) (hline : '\n' ∉ p)
    (hlast : p.getLast?.any isBlank = false) (hb : ∀ c ∈ b, isBlank c = true) (hbline : '\n' ∉ b)
    (hrest : rest = [] ∨ ∃ r, rest = '\n' :: r) : firstLine s = p := by
  have hkept : ∀ c ∈ p ++ b, (c != '\n') = true := by
    intro c hc
    refine bne_iff_ne.2 ?_
    rintro rfl
    exact (List.mem_append.1 hc).elim hline hbline
  have hstop : rest.takeWhile (· != '\n') = [] := by
    rcases hrest with rfl | ⟨r, rfl⟩ <;> rfl
  rw [firstLine_eq hs, hsp, ← List.append_assoc, List.takeWhile_append_of_pos hkept, hstop,
    List.append_nil, trimEnd_blanks hlast hb]

theorem firstLine_newline : '\n' ∉ firstLine s := by
  obtain ⟨-, -, hfree, -⟩ := takeWhile_line s
  rw [firstLine_eq hs]
  exact fun hin => hfree ((trimEnd_begins _).mem hin)

omit hs in
theorem firstLine_getLast? : (firstLine s).getLast?.any isBlank = false := getLast?_trim _

theorem prefix_firstLine (hp : p <+: s) (hline : '\n' ∉ p)
    (hlast : p.getLast?.any isBlank = false) : p <+: firstLine s := by
  rw [firstLine_eq hs]
  refine prefix_trimEnd ?_ hlast
  obtain ⟨rest, rfl⟩ := hp
  rw [List.takeWhile_append_of_pos]
  · exact List.prefix_append p _
  · intro c hc
    exact bne_iff_ne.2 fun heq => hline (heq ▸ hc)

end FirstLine

theorem firstLine_trailing (s : List Char) {b : List Char} (hb : ∀ c ∈ b, isBlank c = true) :
    firstLine (s ++ b) = firstLine s := by
  have hbody : s.takeWhile isBlank ++ trimStart s = s := List.takeWhile_append_dropWhile
  rw [← hbody, List.append_assoc, firstLine_blanks fun c hc => List.mem_takeWhile_imp hc,
    firstLine_blanks fun c hc => List.mem_takeWhile_imp hc]
  have hs := head?_trimStart s
  generalize trimStart s = s at hs
  cases hnil : s with
  | nil => simpa using firstLine_blanks hb []
  | cons c s' =>
    rw [← hnil]
    have hhead : (s ++ b).head?.any isBlank = false := by
      rw [hnil] at hs ⊢
      exact hs
    obtain ⟨b₁, rest, hmore, hb₁, hline, hrest⟩ := firstLine_append hs
    have hsplit : s ++ b = firstLine s ++ (b₁ ++ (rest ++ b)) := by
      rw [← List.append_assoc, ← List.append_assoc, List.append_assoc _ b₁ rest, ← hmore]
    rcases hrest with rfl | ⟨r, rfl⟩
    · -- The blanks go on with the line up to their first line feed.
      obtain ⟨rest, hb', hfree, hrest⟩ := takeWhile_line b
      refine firstLine_of (b := b₁ ++ b.takeWhile (· != '\n')) hhead ?_ (firstLine_newline hs)
        firstLine_getLast? ?_ (by simp [hline, hfree]) hrest
      · rw [List.append_assoc, ← hb', hsplit, List.nil_append]
      · intro c hc
        exact (List.mem_append.1 hc).elim (hb₁ c) fun hc => hb c ((List.takeWhile_prefix _).mem hc)
    · exact firstLine_of hhead hsplit (firstLine_newline hs) firstLine_getLast? hb₁ hline
        (.inr ⟨r ++ b, rfl⟩)

theorem find?_lines (s : List Char) : ((lines s).map trim).find? (!·.isEmpty)
    = if (firstLine s).isEmpty then none else some (firstLine s) := by
  rw [find?_lines_pieces]
  induction s with
  | nil => rfl
  | cons c s ih =>
    obtain ⟨rest, hrest⟩ := splitAtChar_takeWhile s
    by_cases hline : c = '\n'
    · subst hline
      rw [firstLine_blank (by decide), ← ih]
      exact congrArg (fun pieces => (pieces.map trim).find? (!·.isEmpty))
        (splitAtChar_append '\n' [] s)
    · have hsplit : splitAtChar '\n' (c :: s) = (c :: s.takeWhile (· != '\n')) :: rest := by
        rw [splitAtChar, if_neg hline, hrest]
      rw [hsplit]
      cases hc : isBlank c with
      | true =>
        rw [firstLine_blank hc, ← ih, hrest, List.map_cons, List.map_cons, trim_blank_cons hc]
      | false =>
        have hfirst : firstLine (c :: s) = trim (c :: s.takeWhile (· != '\n')) := by
          rw [firstLine, trimStart, List.dropWhile_cons_of_neg (by simp [hc]),
            List.takeWhile_cons_of_pos (by simpa using hline)]
        have hne := trim_nonempty hc (s.takeWhile (· != '\n'))
        rw [hfirst, List.map_cons, List.find?_cons_of_pos (by simpa using hne),
          if_neg (by simpa using hne)]

end Crosswalk.Text
