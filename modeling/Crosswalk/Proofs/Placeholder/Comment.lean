import Crosswalk.Placeholder
import Crosswalk.Proofs.Text.Trim

namespace Crosswalk

namespace Text

variable {between other : Char → Char → Bool}

def spaced (between : Char → Char → Bool) : List Char → List Char
  | [] => []
  | [c] => [c]
  | c :: d :: s =>
    if between c d then c :: ' ' :: spaced between (d :: s) else c :: spaced between (d :: s)

theorem spaced_cons (between : Char → Char → Bool) (c : Char) (s : List Char) :
    ∃ rest, spaced between (c :: s) = c :: rest := by
  cases s with
  | nil => exact ⟨[], rfl⟩
  | cons d s =>
    rw [spaced]
    split
    · exact ⟨_, rfl⟩
    · exact ⟨_, rfl⟩

theorem replaceAll_pair {a b : Char} (hab : a ≠ b) (s : List Char) :
    replaceAll [a, b] [a, ' ', b] s = spaced (fun c d => c == a && d == b) s := by
  have hother {c : Char} (hc : c ≠ a) (s : List Char) :
      replaceAll [a, b] [a, ' ', b] (c :: s) = c :: replaceAll [a, b] [a, ' ', b] s := by
    simp [replaceAll, replaceFrom, startsWith, afterStart?, Ne.symm hc]
  fun_induction spaced (fun c d => c == a && d == b) s with
  | case1 => rfl
  | case2 c => by_cases hc : a = c <;> simp [replaceAll, replaceFrom, startsWith, afterStart?, hc]
  | case3 c d s hpair ih =>
    rw [Bool.and_eq_true, beq_iff_eq, beq_iff_eq] at hpair
    obtain ⟨rfl, rfl⟩ := hpair
    rw [← ih, hother (Ne.symm hab)]
    simp [replaceAll, replaceFrom, startsWith, afterStart?]
  | case4 c d s hpair ih =>
    rw [← ih]
    simp only [Bool.and_eq_true, beq_iff_eq, not_and] at hpair
    have hopens : startsWith [a, b] (c :: d :: s) = false := by
      by_cases hc : a = c
      · simp [startsWith, afterStart?, hc, Ne.symm (hpair hc.symm)]
      · simp [startsWith, afterStart?, hc]
    rw [replaceAll, replaceFrom, hopens]
    rfl

theorem spaced_spaced (hother : ∀ c, other c ' ' = false ∧ other ' ' c = false) (s : List Char) :
    spaced other (spaced between s) = spaced (fun c d => between c d || other c d) s := by
  fun_induction spaced between s with
  | case1 => rfl
  | case2 c => rfl
  | case3 c d s hpair ih =>
    obtain ⟨rest, hrest⟩ := spaced_cons between d s
    rw [hrest] at ih ⊢
    simp [spaced, hpair, hother, ih]
  | case4 c d s hpair ih =>
    obtain ⟨rest, hrest⟩ := spaced_cons between d s
    rw [hrest] at ih ⊢
    simp [spaced, hpair, ih]

theorem spaced_apart (hspace : ∀ c, between c ' ' = false ∧ between ' ' c = false)
    (s : List Char) : (spaced between s).IsChain fun c d => between c d = false := by
  fun_induction spaced between s with
  | case1 => exact .nil
  | case2 c => exact .singleton c
  | case3 c d s _ ih =>
    obtain ⟨rest, hrest⟩ := spaced_cons between d s
    rw [hrest] at ih ⊢
    exact .cons_cons (hspace c).1 (.cons_cons (hspace d).2 ih)
  | case4 c d s hpair ih =>
    obtain ⟨rest, hrest⟩ := spaced_cons between d s
    rw [hrest] at ih ⊢
    exact .cons_cons (Bool.eq_false_iff.2 hpair) ih

theorem not_infix_of_apart {s : List Char} (h : s.IsChain fun c d => between c d = false)
    {c d : Char} (hcd : between c d = true) : ¬[c, d] <:+: s := by
  intro hinfix
  have hchain := List.IsChain.infix h hinfix
  have hpair := List.isChain_pair.1 hchain
  rw [hcd] at hpair
  cases hpair

end Text

namespace Placeholder

open Text

def delimits (c d : Char) : Bool := c == '/' && d == '*' || c == '*' && d == '/'

/-- What follows a block comment in which so many comments are open. Comments nest. -/
def afterComment? : (depth : Nat) → List Char → Option (List Char)
  | 0, s => some s
  | _ + 1, [] => none
  | _ + 1, [_] => none
  | depth + 1, c :: d :: s =>
    if c = '/' ∧ d = '*' then afterComment? (depth + 2) s
    else if c = '*' ∧ d = '/' then afterComment? depth s
    else afterComment? (depth + 1) (d :: s)

def afterBlock? : List Char → Option (List Char)
  | '/' :: '*' :: s => afterComment? 1 s
  | _ => none

theorem body_eq (content : List Char) : body content = trimEnd (spaced delimits content) := by
  have hspace : ∀ c : Char, (c == '*' && ' ' == '/') = false ∧ (' ' == '*' && c == '/') = false :=
    fun c => ⟨Bool.and_false _, Bool.false_and _⟩
  rw [body, replaceAll_pair (by decide), replaceAll_pair (by decide), spaced_spaced hspace]
  rfl

theorem body_apart (content : List Char) :
    (body content).IsChain fun c d => delimits c d = false := by
  have hspace : ∀ c, delimits c ' ' = false ∧ delimits ' ' c = false :=
    fun c => ⟨by simp [delimits], by simp [delimits]⟩
  rw [body_eq]
  exact List.IsChain.prefix (spaced_apart hspace content) (trimEnd_begins _)

theorem afterComment?_plain (depth : Nat) {c d : Char} (h : delimits c d = false) (s : List Char) :
    afterComment? (depth + 1) (c :: d :: s) = afterComment? (depth + 1) (d :: s) := by
  simp only [delimits, Bool.or_eq_false_iff, Bool.and_eq_false_imp, beq_iff_eq,
    beq_eq_false_iff_ne] at h
  rw [afterComment?, if_neg (not_and.2 h.1), if_neg (not_and.2 h.2)]

theorem afterComment?_apart (depth : Nat) {s : List Char}
    (h : s.IsChain fun c d => delimits c d = false) (rest : List Char) :
    afterComment? (depth + 1) (s ++ '\n' :: rest) = afterComment? (depth + 1) ('\n' :: rest) := by
  induction s with
  | nil => rfl
  | cons c s ih =>
    cases s with
    | nil => exact afterComment?_plain depth (by simp [delimits]) rest
    | cons d s =>
      obtain ⟨hcd, hs⟩ := List.isChain_cons_cons.1 h
      rw [← ih hs]
      exact afterComment?_plain depth hcd _

def heading (file : Source) (d : Direction) (reason : String) : String :=
  header ++ ": automatic conversion unavailable (" ++ reason ++ ")\n"
    ++ "// Source: " ++ file.path ++ " (" ++ file.language.name ++ " -> " ++ d.target.name ++ ")\n"
    ++ "// Convert this file manually.\n"

def blockComment (body : List Char) : List Char := "/*\n".toList ++ body ++ "\n*/\n".toList

theorem render_eq (file : Source) (d : Direction) (reason : String) :
    (render file d reason).toList
      = (heading file d reason).toList ++ blockComment (body file.content.toList) := by
  simp [render, heading, blockComment]

/-- Behind the heading, a placeholder holds the source in a block comment that ends at the very end.
The source has no delimiters of comments: each has got a space between its characters, and otherwise
only blanks at the end are missing. -/
theorem render_closed (file : Source) (d : Direction) (reason : String) : ∃ body,
    (render file d reason).toList = (heading file d reason).toList ++ blockComment body ∧
      ¬"/*".toList <:+: body ∧ ¬"*/".toList <:+: body ∧
      afterBlock? (blockComment body) = some ['\n'] ∧
      body = trimEnd (spaced delimits file.content.toList) := by
  have hapart := body_apart file.content.toList
  refine ⟨body file.content.toList, render_eq file d reason, not_infix_of_apart hapart rfl,
    not_infix_of_apart hapart rfl, ?_, body_eq _⟩
  have hblock : ('\n' :: body file.content.toList).IsChain fun c d => delimits c d = false := by
    refine List.isChain_cons.2 ⟨fun c _ => ?_, hapart⟩
    simp [delimits]
  exact afterComment?_apart 0 hblock ['*', '/', '\n']

example : blockComment (body "/*/ a */*".toList) = "/*\n/ * / a * / *\n*/\n".toList := by decide

end Placeholder

end Crosswalk
