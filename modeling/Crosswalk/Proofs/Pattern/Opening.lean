import Crosswalk.Proofs.Pattern.Taking
import Crosswalk.Rules.Substitution

namespace Crosswalk

namespace Pattern

open Text

def skips : Pattern → (last : Option Char) → (next : Char) → Bool
  | .empty, _, _ | .many _, _, _ | .star _, _, _ => true
  | .one _, _, _ | .textEnd, _, _ => false
  | .seq a b, last, next => a.skips last next && b.skips last next
  | .alt a b, last, next => a.skips last next || b.skips last next
  | .group _ a, last, next => a.skips last next
  | .boundary, last, next => isBoundary last (some next)
  | .lineStart, last, _ => last.all (· == '\n')
  | .textStart, last, _ => last.isNone

/-- The pattern can take a text that starts with this character. -/
def starts : Pattern → (last : Option Char) → (next : Char) → Bool
  | .one member, _, next | .many member, _, next => member next
  | .seq a b, last, next => a.starts last next || (a.skips last next && b.starts last next)
  | .alt a b, last, next => a.starts last next || b.starts last next
  | .star a, last, next | .group _ a, last, next => a.starts last next
  | .empty, _, _ | .boundary, _, _ | .lineStart, _, _ | .textStart, _, _ | .textEnd, _, _ => false

variable {p : Pattern} {last : Option Char} {c : Char} {u s z rest : List Char}

theorem Takes.skips (h : p.Takes last [] (c :: s)) : p.skips last c = true := by
  induction p with
  | empty | many | star => rfl
  | one member =>
    obtain ⟨d, hd, -⟩ := h
    cases hd
  | seq a b iha ihb =>
    obtain ⟨x, y, hxy, ha, hb⟩ := h
    obtain ⟨rfl, rfl⟩ := List.append_eq_nil_iff.1 hxy.symm
    exact Bool.and_eq_true_iff.2 ⟨iha ha, ihb hb⟩
  | alt a b iha ihb => exact Bool.or_eq_true_iff.2 (h.imp iha ihb)
  | group i a ih => exact ih h
  | boundary => exact h.2
  | lineStart => exact h.2
  | textStart => exact Option.isNone_iff_eq_none.2 h.2
  | textEnd => cases h.2

theorem Takes.starts (h : p.Takes last (c :: z) rest) : p.starts last c = true := by
  induction p generalizing last z rest with
  | empty => cases h
  | boundary | lineStart | textStart | textEnd => cases h.1
  | one member =>
    obtain ⟨d, hd, hmember⟩ := h
    obtain ⟨rfl, -⟩ := List.cons.inj hd
    exact hmember
  | many member => exact h c List.mem_cons_self
  | seq a b iha ihb =>
    obtain ⟨x, y, hxy, ha, hb⟩ := h
    cases x with
    | nil =>
      obtain rfl : y = c :: z := hxy.symm
      exact Bool.or_eq_true_iff.2 (.inr (Bool.and_eq_true_iff.2 ⟨ha.skips, ihb hb⟩))
    | cons d x =>
      obtain ⟨rfl, -⟩ := List.cons.inj hxy
      exact Bool.or_eq_true_iff.2 (.inl (iha ha))
  | alt a b iha ihb => exact Bool.or_eq_true_iff.2 (h.imp iha ihb)
  | star a ih =>
    change Rounds a.Takes last (c :: z) rest at h
    generalize hz : c :: z = w at h
    induction h with
    | stop => cases hz
    | @again last x y rest hx _ ihrest =>
      cases x with
      | nil => exact ihrest hz
      | cons d x =>
        obtain ⟨rfl, -⟩ := List.cons.inj hz
        exact ih hx
  | group i a ih => exact ih h

theorem not_matches_first (htakes : p.takes = true) (h : p.starts last c = false) :
    ¬p.Matches last (c :: s) := by
  rintro ⟨z, rest, hs, hz⟩
  obtain ⟨d, z, rfl⟩ := List.exists_cons_of_ne_nil (hz.ne_nil htakes)
  obtain ⟨rfl, -⟩ := List.cons.inj hs
  rw [hz.starts] at h
  cases h

theorem lastOf_line (hu : '\n' ∉ u) (hlast : (lastOf last u).all (· == '\n') = true) : u = [] := by
  cases hend : u.getLast? with
  | none => exact List.getLast?_eq_none_iff.1 hend
  | some c =>
    rw [lastOf, hend, Option.some_or, Option.all_some, beq_iff_eq] at hlast
    exact absurd (hlast ▸ List.mem_of_getLast? hend) hu

/-- Whatever follows the text, no match starts in it. -/
def quiet (p : Pattern) : (last : Option Char) → List Char → Bool
  | _, [] => true
  | last, c :: u => !p.starts last c && quiet p (some c) u

theorem scanFrom_quiet (hadvances : p.advances = true) (htakes : p.takes = true)
    (hu : p.quiet last u = true) (s : List Char) :
    p.scanFrom 0 false last (u ++ s) = u.map .plain ++ p.scanFrom 0 false (lastOf last u) s := by
  induction u generalizing last with
  | nil => rfl
  | cons c u ih =>
    rw [quiet, Bool.and_eq_true, Bool.not_eq_true'] at hu
    have hnone := (matchAt_none hadvances last _).2 (not_matches_first (s := u ++ s) htakes hu.1)
    rw [List.cons_append, Spelling.scanFrom_plain false hnone, ih hu.2, lastOf_cons]
    rfl

end Pattern

def Place.below (p : Place) : Place := ⟨p.before ++ ['\n'], p.after⟩

def Captures.below (caps : Captures) : Captures := caps.map fun c => (c.1, c.2.1.below, c.2.2.below)

def Match.below (m : Match) : Match := ⟨m.start.below, m.stop.below, m.captures.below⟩

theorem Place.since_below (start stop : Place) :
    start.below.since stop.below = start.since stop := by
  have hlength : (stop.before ++ ['\n']).length - (start.before ++ ['\n']).length
      = stop.before.length - start.before.length := by
    simp
  rw [since, since, below, below, hlength, List.take_append_of_le_length (Nat.sub_le ..)]

theorem Place.atBoundary_below (p : Place) : p.below.atBoundary = p.atBoundary := by
  obtain ⟨before, after⟩ := p
  cases before with
  | nil => rfl
  | cons c before => rfl

theorem Place.atLineStart_below (p : Place) : p.below.atLineStart = p.atLineStart := by
  obtain ⟨before, after⟩ := p
  cases before with
  | nil => rfl
  | cons c before => rfl

theorem Match.text_below (m : Match) : m.below.text = m.text := Place.since_below ..

theorem Match.group?_below (m : Match) (i : Nat) : m.below.group? i = m.group? i := by
  rw [group?, group?, below, Captures.below, List.find?_map, Option.map_map]
  exact Option.map_congr fun c _ => Place.since_below c.2.1 c.2.2

theorem Rule.replacement_below (r : Rule) (m : Match) :
    r.replacement m.below = r.replacement m := by
  have hexpand (part : TemplatePart) : part.expand m.below = part.expand m := by
    cases part with
    | text s => rfl
    | group i => rw [TemplatePart.expand, TemplatePart.expand, Match.group?_below]
  unfold replacement
  simp only [hexpand]

namespace Pattern

section Run

variable {α : Type} {k k' : Place → Captures → Option α} {f : α → α} {caps : Captures}

theorem map_orElse (f : α → α) (x y : Option α) :
    (x <|> y).map f = (x.map f <|> y.map f) := by
  cases x <;> rfl

theorem runMany_below (hk : ∀ q, k' q.below caps.below = (k q caps).map f) (member : Char → Bool)
    (before after : List Char) :
    runMany member (fun q => k' q caps.below) (before ++ ['\n']) after
      = (runMany member (fun q => k q caps) before after).map f := by
  induction after generalizing before with
  | nil => exact hk ⟨before, []⟩
  | cons c after ih =>
    have hhere := hk ⟨before, c :: after⟩
    have hmore := ih (c :: before)
    rw [List.cons_append] at hmore
    rw [runMany, runMany]
    split
    · rw [hmore, map_orElse, ← hhere]
      rfl
    · exact hhere

theorem run_below {p : Pattern} (hp : p.sees = true)
    (hk : ∀ q caps, k' q.below caps.below = (k q caps).map f) (start : Place) (caps : Captures) :
    p.run start.below caps.below k' = (p.run start caps k).map f := by
  induction p generalizing k k' start caps with
  | empty => exact hk start caps
  | one member =>
    obtain ⟨before, after⟩ := start
    cases after with
    | nil => rfl
    | cons c after =>
      simp only [run, Place.below]
      split
      · exact hk ⟨c :: before, after⟩ caps
      · rfl
  | seq a b iha ihb =>
    rw [sees, Bool.and_eq_true] at hp
    exact iha hp.1 (fun q caps => ihb hp.2 hk q caps) start caps
  | alt a b iha ihb =>
    rw [sees, Bool.and_eq_true] at hp
    rw [run, run, iha hp.1 hk, ihb hp.2 hk, map_orElse]
  | many member => exact runMany_below (fun q => hk q caps) member start.before start.after
  | star a ih =>
    -- The line feed stands before the text, so as many rounds are left with it as without.
    have hrounds (n : Nat) : ∀ start caps, runStar a.run k' n start.below caps.below
        = (runStar a.run k n start caps).map f := by
      induction n with
      | zero => exact hk
      | succ n ihn =>
        intro start caps
        rw [runStar, runStar, ih hp ihn, hk, map_orElse]
    exact hrounds start.after.length start caps
  | group i a ih => exact ih hp (fun q caps => hk q ((i, start, q) :: caps)) start caps
  | boundary =>
    rw [run, run, start.atBoundary_below]
    split
    · exact hk start caps
    · rfl
  | lineStart =>
    rw [run, run, start.atLineStart_below]
    split
    · exact hk start caps
    · rfl
  | textStart | textEnd => cases hp

end Run

variable {p : Pattern}

theorem matchAt_below (hp : p.sees = true) (s : List Char) :
    p.matchAt (.behind (some '\n') s) = (p.matchAt (.behind none s)).map Match.below :=
  run_below hp (fun _ _ => rfl) (.behind none s) []

/-- Behind a line feed a text is rewritten as it is on its own. -/
theorem patched_below (hp : p.sees = true) {f : Match → List Char} (hf : ∀ m, f m.below = f m)
    (s : List Char) :
    patched f (p.scanFrom 0 false (some '\n') s) = patched f (p.scanFrom 0 false none s) := by
  have hmatch := matchAt_below hp s
  have hhit (m : Match) (pieces : List Piece) :
      patched f (.hit m.below :: pieces) = patched f (.hit m :: pieces) :=
    congrArg (· ++ patched f pieces) (hf m)
  cases s with
  | nil =>
    rw [scanFrom, scanFrom, hmatch]
    cases p.matchAt (.behind none []) with
    | none => rfl
    | some m => exact hhit m []
  | cons c s =>
    rw [scanFrom, scanFrom, hmatch]
    cases p.matchAt (.behind none (c :: s)) with
    | none => rfl
    | some m =>
      simp only [Option.map_some, m.text_below]
      cases m.text.length with
      | zero => exact hhit m _
      | succ n => exact hhit m _

end Pattern

namespace Rule

variable {u : List Char}

theorem apply_below {r : Rule} (hsees : r.pattern.sees = true)
    (hadvances : r.pattern.advances = true) (htakes : r.pattern.takes = true)
    (hu : r.pattern.quiet none (u ++ ['\n']) = true) (s : List Char) :
    r.apply (u ++ '\n' :: s) = u ++ '\n' :: r.apply s := by
  have hscan := Pattern.scanFrom_quiet hadvances htakes hu s
  rw [Pattern.lastOf_append] at hscan
  rw [List.append_cons, apply, Pattern.replaceAll_eq, hscan, Pattern.patched_plain]
  rw [List.append_assoc]
  exact congrArg (u ++ '\n' :: ·) (Pattern.patched_below hsees r.replacement_below s)

theorem applyAll_below {rules : List Rule}
    (hrules : ∀ r ∈ rules, r.pattern.sees = true ∧ r.pattern.advances = true ∧
      r.pattern.takes = true ∧ r.pattern.quiet none (u ++ ['\n']) = true) (s : List Char) :
    applyAll rules (u ++ '\n' :: s) = u ++ '\n' :: applyAll rules s := by
  induction rules generalizing s with
  | nil => rfl
  | cons r rules ih =>
    obtain ⟨⟨hsees, hadvances, htakes, hu⟩, hrules⟩ := List.forall_mem_cons.1 hrules
    change applyAll rules (r.apply _) = u ++ '\n' :: applyAll rules (r.apply s)
    rw [apply_below hsees hadvances htakes hu, ih hrules]

end Rule

end Crosswalk
