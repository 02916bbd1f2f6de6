import Crosswalk.Proofs.Rules.Trimming
import Crosswalk.Rules.Reply

namespace Crosswalk

namespace Text

theorem not_isBlank_of_alpha {c : Char} (h : c.isAlpha = true) : isBlank c = false := by
  have hword : isWord c = true :=
    Rules.isWord_of_identifierChar (by simp [Rules.isIdentifierChar, Char.isAlphanum, h])
  refine Bool.eq_false_iff.2 fun hblank => ?_
  rw [not_isWord_of_blank hblank] at hword
  cases hword

theorem isBlank_toLower (c : Char) : isBlank c.toLower = isBlank c := by
  cases hc : c.isAlpha with
  | true =>
    rw [not_isBlank_of_alpha hc, not_isBlank_of_alpha (by rwa [Char.isAlpha_toLower_eq_isAlpha])]
  | false =>
    rw [Char.isAlpha, Bool.or_eq_false_iff] at hc
    rw [Char.toLower_eq_of_not_isUpper (by simp [hc.1])]

theorem isBlank_folded {letter c : Char} (h : foldsTo letter c = true) :
    isBlank c = isBlank letter := by
  rw [← isBlank_toLower letter]
  simp only [foldsTo, Bool.or_eq_true, Bool.and_eq_true, decide_eq_true_eq] at h
  rcases h with (h | ⟨hletter, rfl⟩) | ⟨hletter, rfl⟩
  · rw [← isBlank_toLower c, h]
  · rw [hletter]
    decide
  · rw [hletter]
    decide

end Text

namespace Pattern

open Text

variable {p q : Pattern} {last : Option Char} {z rest : List Char}

theorem takes_caselessText {w : String} :
    (caselessText w).Takes last z rest ↔ List.Forall₂ (foldsTo · ·) w.toList z := by
  rw [caselessText]
  generalize w.toList = cs
  induction cs generalizing last z with
  | nil => exact List.forall₂_nil_left_iff.symm
  | cons c cs ih =>
    rw [List.map_cons, takes_sequence, List.forall₂_cons_left_iff]
    constructor
    · rintro ⟨_, y, rfl, ⟨d, rfl, hd⟩, hrest⟩
      exact ⟨d, y, hd, ih.1 hrest, rfl⟩
    · rintro ⟨d, y, hd, hrest, rfl⟩
      exact ⟨[d], y, rfl, ⟨d, rfl, hd⟩, ih.2 hrest⟩

/-- Whatever the pattern takes starts with something else than a blank. -/
def StartsFirm (p : Pattern) : Prop :=
  ∀ last z rest, p.Takes last z rest → z.head?.any (!isBlank ·) = true

def EndsFirm (p : Pattern) : Prop :=
  ∀ last z rest, p.Takes last z rest → z.getLast?.any (!isBlank ·) = true

theorem StartsFirm.seq (hp : StartsFirm p) : StartsFirm (.seq p q) := by
  rintro last _ rest ⟨x, y, rfl, hx, -⟩
  have hfirst := hp _ _ _ hx
  cases x with
  | nil => cases hfirst
  | cons c x => exact hfirst

theorem EndsFirm.seq (hq : EndsFirm q) : EndsFirm (.seq p q) := by
  rintro last _ rest ⟨x, y, rfl, -, hy⟩
  have hlast := hq _ _ _ hy
  cases y with
  | nil => cases hlast
  | cons c y => rwa [List.getLast?_append_of_ne_nil _ (List.cons_ne_nil c y)]

theorem EndsFirm.boundary (hp : EndsFirm p) : EndsFirm (.seq p .boundary) := by
  rintro last _ rest ⟨x, _, rfl, hx, rfl, -⟩
  rw [List.append_nil]
  exact hp _ _ _ hx

theorem EndsFirm.anyOf {ps : List Pattern} (hps : ∀ p ∈ ps, EndsFirm p) : EndsFirm (.anyOf ps) := by
  intro last z rest hz
  obtain ⟨p, hp, hz⟩ := takes_anyOf.1 hz
  exact hps p hp _ _ _ hz

theorem isBlank_caselessText {w : String} (h : (caselessText w).Takes last z rest) :
    z.map isBlank = w.toList.map isBlank := by
  rw [← List.forall₂_eq_eq_eq, List.forall₂_map_left_iff, List.forall₂_map_right_iff]
  refine List.Forall₂.flip ((takes_caselessText.1 h).imp fun _ _ hc => isBlank_folded hc)

theorem StartsFirm.caselessText {w : String} (hw : (w.toList.map isBlank).head? = some false) :
    StartsFirm (.caselessText w) := by
  intro last z rest hz
  rw [← isBlank_caselessText hz, List.head?_map] at hw
  cases hfirst : z.head? <;> simp_all

theorem EndsFirm.caselessText {w : String} (hw : (w.toList.map isBlank).getLast? = some false) :
    EndsFirm (.caselessText w) := by
  intro last z rest hz
  rw [← isBlank_caselessText hz, List.getLast?_map] at hw
  cases hlast : z.getLast? <;> simp_all

theorem TakesSolid.of_ends (hp : StartsFirm p) (hp' : EndsFirm p) : TakesSolid p :=
  fun last z rest hz => ⟨hp last z rest hz, hp' last z rest hz⟩

/-- A solid match is not touched when the text around it is trimmed. -/
theorem unmatched_trim {s : List Char} (hadvances : p.advances = true) (hsees : p.sees = true)
    (hline : p.linewise = false) (hp : TakesSolid p) (h : p.find? (trim s) = none) :
    p.find? s = none := by
  rw [find?, findFrom_none hadvances] at h ⊢
  rintro x _ rfl ⟨z, rest, rfl, hz⟩
  have hsolid := hp _ _ _ hz
  have hkept : Solid (trimStart x ++ z) := by
    cases hx : trimStart x with
    | nil => exact hsolid
    | cons c x' =>
      have hc := head?_trimStart x
      rw [hx] at hc
      exact (show Solid [c] from solid_singleton hc).around hsolid x'
  have hbefore : ∀ c ∈ x.takeWhile isBlank, isBlank c = true := fun _ hc => List.mem_takeWhile_imp hc
  have hx : x.takeWhile isBlank ++ trimStart x = x := List.takeWhile_append_dropWhile
  obtain ⟨b', hrest, hb'⟩ := trimEnd_append rest
  have htrim := hkept.trim hbefore rest
  rw [List.append_assoc, List.append_assoc, ← List.append_assoc _ (trimStart x), hx] at htrim
  rw [hrest, takes_trailing hsees hb', ← hx, lastOf_append] at hz
  have hlast : Alike p (lastOf none (x.takeWhile isBlank)) none :=
    .other hline (lastOf_blanks hbefore) rfl
  exact h (trimStart x) (z ++ trimEnd rest) htrim
    ⟨z, trimEnd rest, rfl, hz.elsewhere hsees (hlast.passed _) rfl⟩

theorem occursIn_trim (hadvances : p.advances = true) (hsees : p.sees = true)
    (hline : p.linewise = false) (hp : TakesSolid p) (s : List Char) :
    p.occursIn (trim s) = p.occursIn s := by
  obtain ⟨b, b', hs, hb, hb'⟩ := trim_append s
  have hnone : p.find? (trim s) = none ↔ p.find? s = none :=
    ⟨unmatched_trim hadvances hsees hline hp,
      fun h => unmatched_between hadvances hsees hline hb hb' (hs ▸ h)⟩
  rw [occursIn, occursIn, Bool.eq_iff_iff, ← not_iff_not, Option.not_isSome_iff_eq_none,
    Option.not_isSome_iff_eq_none, hnone]

end Pattern

namespace Rules

open Pattern

theorem moduleNotFound_solid : TakesSolid moduleNotFound := by
  refine .anyOf ?_
  refine List.forall_mem_cons.2 ⟨?_, List.forall_mem_cons.2 ⟨?_, List.forall_mem_cons.2 ⟨?_,
    List.forall_mem_cons.2 ⟨?_, List.forall_mem_cons.2 ⟨?_, List.forall_mem_cons.2 ⟨?_,
      List.forall_mem_nil _⟩⟩⟩⟩⟩⟩
  · exact .of_ends (.caselessText (by decide)) (.caselessText (by decide))
  · exact .of_ends (.seq (.caselessText (by decide)))
      (.seq (.seq (.seq (.seq (.caselessText (by decide))))))
  · exact .of_ends (.caselessText (by decide)) (.caselessText (by decide))
  · exact .of_ends (.caselessText (by decide)) (.caselessText (by decide))
  · exact .of_ends (.caselessText (by decide)) (.caselessText (by decide))
  · refine .of_ends (.seq (.caselessText (by decide)))
      (.seq (.seq (.seq (.seq (.boundary (.anyOf ?_))))))
    intro p hp
    obtain ⟨w, hw, rfl⟩ := List.mem_map.1 hp
    refine .caselessText ?_
    clear hp
    revert w
    decide

theorem moduleNotFound_trim (line : List Char) :
    moduleNotFound.occursIn (Text.trim line) = moduleNotFound.occursIn line :=
  occursIn_trim (by decide) (by decide) (by decide) moduleNotFound_solid line

end Rules

end Crosswalk
