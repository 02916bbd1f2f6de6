import Crosswalk.Proofs.Pattern.Avoiding

namespace Crosswalk.Pattern

def lastOf (last : Option Char) (passed : List Char) : Option Char := passed.getLast?.or last

@[simp] theorem lastOf_nil (last : Option Char) : lastOf last [] = last := rfl

@[simp] theorem lastOf_append (last : Option Char) (s t : List Char) :
    lastOf last (s ++ t) = lastOf (lastOf last s) t := by
  cases ht : t.getLast? <;> simp [lastOf, List.getLast?_append, ht]

theorem lastOf_cons (last : Option Char) (c : Char) (s : List Char) :
    lastOf last (c :: s) = lastOf (some c) s := lastOf_append last [c] s

inductive Scans (p : Pattern) : Option Char → List Char → List Piece → Prop
  | nil (last : Option Char) : Scans p last [] []
  | plain {last : Option Char} {c : Char} {s : List Char} {pieces : List Piece}
      (hnone : p.matchAt (.behind last (c :: s)) = none) (h : Scans p (some c) s pieces) :
      Scans p last (c :: s) (.plain c :: pieces)
  | hit {last : Option Char} {s : List Char} {m : Match} {pieces : List Piece}
      (hm : p.matchAt (.behind last (m.text ++ s)) = some m) (hne : m.text ≠ [])
      (h : Scans p (lastOf last m.text) s pieces) :
      Scans p last (m.text ++ s) (.hit m :: pieces)

variable {p : Pattern}

theorem scanFrom_behind (p : Pattern) (c : Char) (v s : List Char) :
    p.scanFrom v.length true (some c) (v ++ s) = p.scanFrom 0 true (lastOf (some c) v) s := by
  induction v generalizing c with
  | nil => rfl
  | cons d v ih => rw [List.cons_append, List.length_cons, scanFrom, ih, lastOf_cons]

theorem text_ne_nil (htakes : p.takes = true) {start : Place} {m : Match}
    (h : p.matchAt start = some m) : m.text ≠ [] := by
  intro hnil
  have htext := matchAt_text h
  have hshorter := (matchAt_leads h).2.length_lt htakes
  rw [hnil, List.nil_append] at htext
  rw [htext] at hshorter
  exact absurd hshorter (Nat.lt_irrefl _)

theorem scanFrom_scans (htakes : p.takes = true) (closed : Bool) (last : Option Char)
    (s : List Char) : p.Scans last s (p.scanFrom 0 closed last s) := by
  induction hlength : s.length using Nat.strong_induction_on generalizing s closed last with
  | _ n ih =>
    cases s with
    | nil =>
      cases hm : p.matchAt (.behind last []) with
      | none =>
        rw [scanFrom, hm]
        exact .nil last
      | some m =>
        have htext := matchAt_text hm
        exact absurd (List.append_eq_nil_iff.1 htext.symm).1 (text_ne_nil htakes hm)
    | cons c s =>
      cases hm : p.matchAt (.behind last (c :: s)) with
      | none =>
        rw [Spelling.scanFrom_plain closed hm]
        exact .plain hm (ih s.length (by simp [← hlength]) false (some c) s rfl)
      | some m =>
        have hne := text_ne_nil htakes hm
        have htext : c :: s = m.text ++ m.stop.after := matchAt_text hm
        obtain ⟨d, v, hv⟩ := List.exists_cons_of_ne_nil hne
        rw [hv, List.cons_append] at htext
        obtain ⟨rfl, rfl⟩ := List.cons.inj htext
        have hlater := ih m.stop.after.length (by simp [← hlength]) true (lastOf (some c) v)
          m.stop.after rfl
        rw [Spelling.scanFrom_hit closed hm hv, scanFrom_behind]
        rw [← List.cons_append, ← hv] at hm ⊢
        exact .hit hm hne (by rwa [hv, lastOf_cons])

end Crosswalk.Pattern
