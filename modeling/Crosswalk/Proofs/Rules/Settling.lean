import Crosswalk.Proofs.Rules.Cleanup

namespace Crosswalk

open Text Pattern

/-- What the rules of a direction write in place of what. -/
def Direction.edits : Direction → Edits
  | .kotlinToSwift => {
      words := [("null", "nil"), ("returnnull", "returnnil"), ("println", "print"),
        ("this", "self")]
      openers := [("fun", "func"), ("val", "let")]
      marks := [("!!", "!")]
      gap := isBlank
      gap' := (· == ' ') }
  | .swiftToKotlin => {
      words := [("nil", "null"), ("returnnil", "returnnull"), ("self", "this")]
      openers := [("func", "fun"), ("let", "val")]
      marks := []
      gap := isBlank
      gap' := (· == ' ') }

theorem Direction.edits_sound (d : Direction) : d.edits.Sound where
  words := by cases d <;> decide
  marks := by cases d <;> simp [Direction.edits]
  gap := by cases d <;> exact fun c hc => hc
  gap' := by cases d <;> exact fun c hc => eq_of_beq hc ▸ by decide

theorem Direction.edits_shrinks (d : Direction) : Shrinks d.edits where
  gap := by cases d <;> exact fun c hc => eq_of_beq hc ▸ by decide
  marks := by cases d <;> decide

section Marks

variable {e : Edits} {inside : Bool} {s t : List Char} {last last' : Option Char}

theorem Text.Edited.replicate (he : e.Sound) (hshrinks : Shrinks e) (h : Edited e inside s t)
    {n : Nat} (hn : List.replicate n '!' <+: t) : List.replicate n '!' <+: s := by
  have hword {v : List Char} (hv : Word v) {t : List Char} {n : Nat}
      (hn : List.replicate n '!' <+: v ++ t) : n = 0 := by
    cases n with
    | zero => rfl
    | succ n =>
      obtain ⟨rest, hrest⟩ := hn
      rw [List.replicate_succ, List.cons_append] at hrest
      exact absurd (show Opens (v ++ t) by rw [← hrest, opens_cons]; decide) (hv.not_opens t)
  induction h generalizing n with
  | nil => exact hn
  | @plain inside c s t _ ih =>
    cases n with
    | zero => exact List.nil_prefix
    | succ n =>
      rw [List.replicate_succ, List.cons_prefix_cons] at hn ⊢
      exact ⟨hn.1, ih hn.2⟩
  | word hmem =>
    obtain rfl := hword (he.word hmem).2 hn
    exact List.nil_prefix
  | opener hmem =>
    obtain rfl := hword (he.opener hmem).2 hn
    exact List.nil_prefix
  | @mark inside w v s t hmem _ ih =>
    have hmany {m n : Nat} (h : n ≤ m) : List.replicate n '!' <+: List.replicate m '!' :=
      ⟨List.replicate (m - n) '!', by rw [List.replicate_append_replicate, Nat.add_sub_cancel' h]⟩
    have hlength := (hshrinks.marks _ hmem).length_le
    rw [List.eq_replicate_of_mem (he.marks _ hmem).2.2] at hn
    rw [List.eq_replicate_of_mem (he.marks _ hmem).1.2]
    rcases Nat.le_total n v.toList.length with hle | hle
    · exact (hmany (hle.trans hlength)).trans (List.prefix_append _ _)
    · obtain ⟨k, rfl⟩ := Nat.exists_eq_add_of_le hle
      rw [← List.replicate_append_replicate, List.prefix_append_right_inj] at hn
      refine (hmany (Nat.add_le_add_right hlength k)).trans ?_
      rw [← List.replicate_append_replicate, List.prefix_append_right_inj]
      exact ih hn

theorem matches_text {w : String} : (text w).Matches last s ↔ w.toList <+: s := by
  constructor
  · rintro ⟨z, rest, rfl, hz⟩
    exact ⟨rest, by rw [takes_text.1 hz]⟩
  · rintro ⟨rest, rfl⟩
    exact ⟨w.toList, rest, rfl, takes_text.2 rfl⟩

theorem text_tracks (he : e.Sound) (hshrinks : Shrinks e) {w : String} {n : Nat}
    (hw : w.toList = List.replicate (n + 1) '!') (hadvances : (text w).advances = true) :
    Tracks e (text w) := by
  have hhead {last : Option Char} {s : List Char} (h : (text w).Matches last s) :
      ∃ rest, s = '!' :: rest := by
    obtain ⟨rest, rfl⟩ := matches_text.1 h
    exact ⟨_, by rw [hw]; rfl⟩
  exact {
    advances := hadvances
    fresh := by
      intro last s hm _
      obtain ⟨rest, rfl⟩ := hhead hm
      exact opens_cons.2 (by decide)
    blank := by
      intro last c s hm hc
      obtain ⟨rest, hs⟩ := hhead hm
      obtain ⟨rfl, -⟩ := List.cons.inj hs
      exact absurd hc (by decide)
    follows := by
      intro last last' s t _ _ _ hmark hm
      obtain ⟨rest, rfl⟩ := hhead hm
      exact absurd rfl hmark
    marked := by
      intro last last' s t hedit hm
      rw [matches_text, hw, List.replicate_succ, List.cons_prefix_cons] at hm ⊢
      exact ⟨rfl, hedit.replicate he hshrinks hm.2⟩ }

/-- The rule that takes one of two exclamation marks away. -/
def unwrapping (name : String) : Rule := Rules.textRule name (text "!!") "!"

variable {name : String} {pieces : List Piece}

theorem unwrapping_hit {s : List Char} {m : Match}
    (h : (unwrapping name).pattern.matchAt (.behind last s) = some m) :
    m.text = ['!', '!'] ∧ (unwrapping name).replacement m = ['!'] :=
  ⟨takes_text.1 (matchAt_matches h).2, rfl⟩

theorem unwrapping_scans (hmem : ("!!", "!") ∈ e.marks)
    (h : (unwrapping name).pattern.Scans last s pieces) :
    Edited e inside s (patched (unwrapping name).replacement pieces) := by
  induction h generalizing inside with
  | nil => exact .nil
  | plain _ _ ih => exact .plain ih
  | hit hm _ _ ih =>
    obtain ⟨htext, hreplaced⟩ := unwrapping_hit hm
    change Edited e _ _ ((unwrapping name).replacement _ ++ patched (unwrapping name).replacement _)
    rw [htext, hreplaced]
    exact .mark hmem ih

theorem unwrapping_settles (h : (unwrapping name).pattern.Scans last s pieces)
    (hs : (text "!!!").findFrom last' s = none) (last₀ : Option Char) :
    (unwrapping name).pattern.findFrom last₀ (patched (unwrapping name).replacement pieces) = none ∧
      ∀ t, patched (unwrapping name).replacement pieces = '!' :: t → ∃ s', s = '!' :: s' := by
  have hadvances : (unwrapping name).pattern.advances = true := rfl
  have htwo {last : Option Char} {c : Char} {t : List Char} :
      (unwrapping name).pattern.Matches last (c :: t) ↔ c = '!' ∧ ∃ t', t = '!' :: t' := by
    change (text "!!").Matches last (c :: t) ↔ _
    rw [matches_text]
    cases t <;> simp [eq_comm]
  induction h generalizing last' last₀ with
  | nil last => exact ⟨rfl, fun t ht => by cases ht⟩
  | @plain last c s pieces hnone _ ih =>
    rw [findFrom_cons_none (by decide)] at hs
    rw [matchAt_none hadvances, htwo] at hnone
    obtain ⟨hlater, hhead⟩ := ih hs.2 (some c)
    change (unwrapping name).pattern.findFrom last₀ (c :: patched _ pieces) = none ∧ _
    rw [findFrom_cons_none hadvances, htwo]
    refine ⟨⟨?_, hlater⟩, fun t ht => ⟨s, by rw [(List.cons.inj ht).1]⟩⟩
    rintro ⟨rfl, t, ht⟩
    exact hnone ⟨rfl, hhead t ht⟩
  | @hit last s m pieces hm _ _ ih =>
    obtain ⟨htext, hreplaced⟩ := unwrapping_hit hm
    rw [htext, List.cons_append, List.cons_append, List.nil_append, findFrom_cons_none (by decide),
      findFrom_cons_none (by decide)] at hs
    obtain ⟨hlater, hhead⟩ := ih hs.2.2 (some '!')
    change (unwrapping name).pattern.findFrom last₀
      ((unwrapping name).replacement m ++ patched _ pieces) = none ∧ _
    rw [htext, hreplaced, List.singleton_append, findFrom_cons_none hadvances, htwo]
    refine ⟨⟨?_, hlater⟩, fun t ht => ⟨_, rfl⟩⟩
    rintro ⟨-, t, ht⟩
    obtain ⟨s', rfl⟩ := hhead t ht
    exact hs.1 (matches_text.2 ⟨s', rfl⟩)

end Marks

namespace Rule

/-- A rule that only replaces what its direction replaces, and that is done with a text in which
none of some patterns was found. -/
structure Fits (e : Edits) (hazards : List Pattern) (r : Rule) : Prop where
  tracks : Tracks e r.pattern
  edits : ∀ s, Edited e false s (r.apply s)
  settles : ∀ s, (∀ p ∈ hazards, p.find? s = none) → r.pattern.find? (r.apply s) = none

theorem Rewords.fits {e : Edits} {ws targets : List String} {r : Rule} (he : e.Sound)
    (hshrinks : Shrinks e) (hr : r.Rewords e ws targets) (hazards : List Pattern) :
    r.Fits e hazards where
  tracks := hr.tracks
  edits := fun s => hr.scans he (scanFrom_scans hr.takes false none s)
    (show (none : Option Char).any isWord = _ from rfl)
  settles := fun s _ =>
    hr.settles he hshrinks (scanFrom_scans hr.takes false none s) (.refl r.pattern none)

def removes (r : Rule) : Bool :=
  match r.action with
  | .remove => true
  | .replace _ => false

end Rule

theorem unwrapping_fits {e : Edits} (he : e.Sound) (hshrinks : Shrinks e)
    (hmem : ("!!", "!") ∈ e.marks) (name : String) : (unwrapping name).Fits e [text "!!!"] where
  tracks := text_tracks he hshrinks (n := 1) (by decide) (by decide)
  edits := fun s => unwrapping_scans hmem (scanFrom_scans (by rfl) false none s)
  settles := fun s hs => (unwrapping_settles (scanFrom_scans (by rfl) false none s)
    (hs _ (List.mem_singleton_self _)) none).1

namespace Direction

def removing (d : Direction) : List Rule := d.rules.cleanup.filter (·.removes)

def replacing (d : Direction) : List Rule := d.rules.cleanup.filter (!·.removes)

theorem cleanup_eq (d : Direction) : d.rules.cleanup = d.removing ++ d.replacing := by
  cases d <;> rfl

/-- What none of the rules is done with at once. -/
def hazards : Direction → List Pattern
  | .kotlinToSwift => [text "!!!"]
  | .swiftToKotlin => []

end Direction

namespace Rules

theorem modifiers_phrases {ws : List String} (hws : ∀ w ∈ ws, Word w.toList) :
    Phrases ws (modifiers ws) :=
  .star (.words hws)

theorem swiftReplacing_fits : ∀ r ∈ Direction.kotlinToSwift.replacing,
    r.Fits Direction.kotlinToSwift.edits [text "!!!"] := by
  have he := Direction.kotlinToSwift.edits_sound
  have hshrinks := Direction.kotlinToSwift.edits_shrinks
  have hgap : ∀ c, isBlank c = true → Direction.kotlinToSwift.edits.gap c = true := fun _ h => h
  refine List.forall_mem_cons.2 ⟨?_, List.forall_mem_cons.2 ⟨?_, List.forall_mem_cons.2 ⟨?_,
    List.forall_mem_cons.2 ⟨?_, List.forall_mem_cons.2 ⟨?_, List.forall_mem_cons.2 ⟨?_,
      List.forall_mem_nil _⟩⟩⟩⟩⟩⟩
  · exact (keywordRule_rewords he (modifiers_phrases (by decide)) (by decide) (by decide)
      (by decide) hgap (by decide) (by decide) (by decide) (by decide)).fits he hshrinks _
  · exact (keywordRule_rewords he (modifiers_phrases (by decide)) (by decide) (by decide)
      (by decide) hgap (by decide) (by decide) (by decide) (by decide)).fits he hshrinks _
  · have hreturned : Returned Direction.kotlinToSwift.edits "null" "nil" "returnnull" "returnnil" :=
      ⟨by decide, by decide, by decide, by decide⟩
    exact (nullRule_rewords hreturned he (by decide)).fits he hshrinks _
  · exact (textRule_rewords he (w := "println") (v := "print") (c := '(') (by decide) (by decide)
      (by decide) (by decide) (by decide) (by decide) (by decide)).fits he hshrinks _
  · exact (textRule_rewords he (w := "this") (v := "self") (c := '.') (by decide) (by decide)
      (by decide) (by decide) (by decide) (by decide) (by decide)).fits he hshrinks _
  · exact unwrapping_fits he hshrinks (by decide) "force-unwrap"

theorem kotlinReplacing_fits : ∀ r ∈ Direction.swiftToKotlin.replacing,
    r.Fits Direction.swiftToKotlin.edits [] := by
  have he := Direction.swiftToKotlin.edits_sound
  have hshrinks := Direction.swiftToKotlin.edits_shrinks
  have hgap : ∀ c, isBlank c = true → Direction.swiftToKotlin.edits.gap c = true := fun _ h => h
  refine List.forall_mem_cons.2 ⟨?_, List.forall_mem_cons.2 ⟨?_, List.forall_mem_cons.2 ⟨?_,
    List.forall_mem_cons.2 ⟨?_, List.forall_mem_nil _⟩⟩⟩⟩
  · exact (keywordRule_rewords he (modifiers_phrases (by decide)) (by decide) (by decide)
      (by decide) hgap (by decide) (by decide) (by decide) (by decide)).fits he hshrinks _
  · have hbefore : ∀ w ∈ ["private", "public", "internal"], Word w.toList := by decide
    exact (keywordRule_rewords he (.optional (.words hbefore)) (by decide) (by decide)
      (by decide) hgap (by decide) (by decide) (by decide) (by decide)).fits he hshrinks _
  · have hreturned : Returned Direction.swiftToKotlin.edits "nil" "null" "returnnil" "returnnull" :=
      ⟨by decide, by decide, by decide, by decide⟩
    exact (nullRule_rewords hreturned he (by decide)).fits he hshrinks _
  · exact (textRule_rewords he (w := "self") (v := "this") (c := '.') (by decide) (by decide)
      (by decide) (by decide) (by decide) (by decide) (by decide)).fits he hshrinks _

variable {e : Edits} {ws : List String} {body : Pattern}

theorem indent_phrases : Phrases ws indent :=
  .many fun c hc => by
    rw [isIndent, Bool.or_eq_true, beq_iff_eq, beq_iff_eq] at hc
    rcases hc with rfl | rfl <;> decide

theorem follows_line (he : e.Sound) (h : Follows e body) : Follows e (lineOf body) :=
  .behind he .lineStart rfl rfl (.behind he indent_phrases (by decide) rfl h)

theorem follows_keyword (he : e.Sound) (hws : ∀ w ∈ ws, Word w.toList)
    (hfresh : ∀ w ∈ ws, w ∉ e.products) (hmark : (texts ws).avoids '!' = true)
    (hsees : (texts ws).sees = true) : Follows e (keywordThenWord ws) :=
  .assoc (.seq he (.words hws) (by simp [avoids, hmark]; decide) (by simp [sees, hsees]; decide)
    hfresh (.one he (fun _ h => h) (by decide)))

theorem text_eq_seq {s w : String} {c : Char} (hs : s.toList = c :: w.toList)
    (hw : Word w.toList) : text s = .seq (char c) (text w) := by
  rw [text, text, hs]
  cases hlist : w.toList with
  | nil => exact absurd hlist hw.nonempty
  | cons d rest => rfl

theorem follows_attribute (he : e.Sound) {s w : String} (hs : s.toList = '@' :: w.toList)
    (hw : Word w.toList) (hfresh : w ∉ e.products) : Follows e (.seq (text s) .boundary) := by
  rw [text_eq_seq hs hw]
  exact .assoc' (.behind he (.char (by decide)) (by decide) rfl (.word he hw hfresh))

theorem nullable_lineRest : Nullable lineRest :=
  fun _ _ => ⟨[], [], rfl, List.forall_mem_nil _, [], [], rfl, .inr rfl, .inr rfl⟩

theorem swiftAnchor_follows : Follows Direction.kotlinToSwift.edits.flip swiftAnchor := by
  have he := Direction.kotlinToSwift.edits_sound.flip
  refine follows_line he (.anyOf ?_)
  refine List.forall_mem_cons.2 ⟨?_, List.forall_mem_cons.2 ⟨?_, List.forall_mem_cons.2 ⟨?_,
    List.forall_mem_cons.2 ⟨?_, List.forall_mem_cons.2 ⟨?_, List.forall_mem_cons.2 ⟨?_,
      List.forall_mem_nil _⟩⟩⟩⟩⟩⟩
  · exact follows_keyword he (by decide) (by decide) (by decide) (by decide)
  · change Follows _ (.seq (text "@testable") (.seq someBlanks (.seq (text "import") .boundary)))
    rw [text_eq_seq (c := '@') (w := "testable") (by decide) (by decide)]
    refine .assoc' (.behind he (.char (by decide)) (by decide) rfl (.assoc ?_))
    exact .seq he (.word (by decide)) (by decide) (by decide) (by decide)
      (.word he (by decide) (by decide))
  · exact follows_attribute he (w := "main") (by decide) (by decide) (by decide)
  · exact follows_attribute he (w := "MainActor") (by decide) (by decide)
      (by decide)
  · exact follows_attribute he (w := "Observable") (by decide) (by decide)
      (by decide)
  · exact .seq he (modifiers_phrases (by decide)) (by decide) (by decide)
      (by decide) (follows_keyword he (by decide) (by decide) (by decide) (by decide))

theorem kotlinAnchor_follows : Follows Direction.swiftToKotlin.edits.flip kotlinAnchor := by
  have he := Direction.swiftToKotlin.edits_sound.flip
  refine follows_line he (.anyOf ?_)
  refine List.forall_mem_cons.2 ⟨?_, List.forall_mem_cons.2 ⟨?_, List.forall_mem_cons.2 ⟨?_,
    List.forall_mem_cons.2 ⟨?_, List.forall_mem_nil _⟩⟩⟩⟩
  · exact follows_keyword he (by decide) (by decide) (by decide) (by decide)
  · exact follows_keyword he (by decide) (by decide) (by decide) (by decide)
  · exact .behind he (.char (by decide)) (by decide) rfl
      (.whole he (by decide) (by decide))
  · exact .seq he (modifiers_phrases (by decide)) (by decide) (by decide)
      (by decide) (follows_keyword he (by decide) (by decide) (by decide) (by decide))

theorem packageLine_follows (he : e.Sound) (hfresh : "package" ∉ e.products) :
    Follows e (lineOf (sequence [text "package", someBlanks,
      atLeastOne (fun c => isWord c || c == '.'), optional (char ';')])) := by
  refine follows_line he (.assoc (.seq he (.word (by decide)) (by decide) (by decide)
    (by simpa using hfresh) (.tail (.tail (.one he ?_ (by decide)) ?_) ?_)))
  · intro c hc
    rw [hc, Bool.true_or]
  · exact fun _ _ => List.forall_mem_nil _
  · exact fun _ _ => .inr rfl

def platforms : List String :=
  ["android", "androidx", "kotlin", "kotlinx", "java", "javax", "dagger"]

theorem platforms_take {last : Option Char} {z rest : List Char}
    (h : (anyOf [text "android", text "androidx", .seq (text "kotlin") (optional (char 'x')),
      text "java", text "javax", text "dagger"]).Takes last z rest) :
    ∃ w ∈ platforms, z = w.toList := by
  rcases h with hz | hz | ⟨x, y, rfl, hx, hy | hy⟩ | hz | hz | hz
  · exact ⟨"android", by decide, takes_text.1 hz⟩
  · exact ⟨"androidx", by decide, takes_text.1 hz⟩
  · exact ⟨"kotlinx", by decide, by rw [takes_text.1 hx, takes_char.1 hy]; rfl⟩
  · exact ⟨"kotlin", by decide, by rw [takes_text.1 hx, hy]; rfl⟩
  · exact ⟨"java", by decide, takes_text.1 hz⟩
  · exact ⟨"javax", by decide, takes_text.1 hz⟩
  · exact ⟨"dagger", by decide, takes_text.1 hz⟩

theorem platformLine_follows (he : e.Sound)
    (hfresh : ∀ w ∈ "import" :: platforms, w ∉ e.products) :
    Follows e (lineOf (sequence [text "import", someBlanks,
      anyOf [text "android", text "androidx", .seq (text "kotlin") (optional (char 'x')),
        text "java", text "javax", text "dagger"],
      char '.', atLeastOne (fun c => isWord c || c == '.' || c == '*')])) := by
  rw [List.forall_mem_cons] at hfresh
  have hname : Follows e (atLeastOne fun c => isWord c || c == '.' || c == '*') := by
    refine .tail (.one he (fun c hc => ?_) (by decide)) fun _ _ => List.forall_mem_nil _
    rw [hc, Bool.true_or, Bool.true_or]
  have hplatform : Phrases platforms (.seq _ (char '.')) :=
    .closed (by decide) (fun _ _ _ => platforms_take) (by decide)
  exact follows_line he (.assoc (.seq he (.word (by decide)) (by decide) (by decide)
    (by simpa using hfresh.1)
    (.assoc (.seq he hplatform (by decide) (by decide) hfresh.2 hname))))

theorem moduleLine_follows (he : e.Sound) {modules : List String}
    (hmodules : ∀ w ∈ modules, Word w.toList) (hfresh : "import" ∉ e.products)
    (hnew : ∀ w ∈ modules, ∀ v ∈ e.products, ¬w.toList <+: v.toList) :
    Follows e (lineOf (sequence [text "import", someBlanks, texts modules])) :=
  follows_line he (.assoc (.seq he (.word (by decide)) (by decide) (by decide)
    (by simpa using hfresh) (.opening he hmodules hnew)))

theorem swiftRemoving_tracks : ∀ r ∈ Direction.kotlinToSwift.removing,
    Tracks Direction.kotlinToSwift.edits r.pattern := by
  have he := Direction.kotlinToSwift.edits_sound
  refine List.forall_mem_cons.2 ⟨?_, List.forall_mem_cons.2 ⟨?_, List.forall_mem_nil _⟩⟩
  · exact .lines (.tail (packageLine_follows he (by decide)) nullable_lineRest) rfl
      (by decide) (by decide) (by decide)
  · exact .lines (.tail (platformLine_follows he (by decide)) nullable_lineRest) rfl
      (by decide) (by decide) (by decide)

theorem kotlinRemoving_tracks : ∀ r ∈ Direction.swiftToKotlin.removing,
    Tracks Direction.swiftToKotlin.edits r.pattern := by
  have he := Direction.swiftToKotlin.edits_sound
  refine List.forall_mem_cons.2 ⟨?_, List.forall_mem_nil _⟩
  exact .lines (.tail (moduleLine_follows he (by decide) (by decide)
    (by decide)) nullable_lineRest) rfl (by decide) (by decide) (by decide)

end Rules

namespace Direction

theorem replacing_fits (d : Direction) : ∀ r ∈ d.replacing, r.Fits d.edits d.hazards := by
  cases d with
  | kotlinToSwift => exact Rules.swiftReplacing_fits
  | swiftToKotlin => exact Rules.kotlinReplacing_fits

theorem removing_tracks (d : Direction) : ∀ r ∈ d.removing, Tracks d.edits r.pattern := by
  cases d with
  | kotlinToSwift => exact Rules.swiftRemoving_tracks
  | swiftToKotlin => exact Rules.kotlinRemoving_tracks

theorem codeAnchor_follows (d : Direction) : Follows d.edits.flip d.rules.codeAnchor := by
  cases d with
  | kotlinToSwift => exact Rules.swiftAnchor_follows
  | swiftToKotlin => exact Rules.kotlinAnchor_follows

theorem hazards_track (d : Direction) : ∀ p ∈ d.hazards, Tracks d.edits p := by
  cases d with
  | kotlinToSwift =>
    exact List.forall_mem_singleton.2
      (text_tracks (edits_sound _) (edits_shrinks _) (n := 2) (by decide) (by decide))
  | swiftToKotlin => exact List.forall_mem_nil _

end Direction

namespace Rule

variable {e : Edits} {hazards : List Pattern} {rules : List Rule} {s : List Char}

theorem applyAll_keeps {P : List Char → Prop} (hP : ∀ s t, Edited e false s t → P s → P t)
    (hrules : ∀ r ∈ rules, r.Fits e hazards) (hs : P s) : P (applyAll rules s) := by
  induction rules generalizing s with
  | nil => exact hs
  | cons r rules ih =>
    obtain ⟨hr, hrules⟩ := List.forall_mem_cons.1 hrules
    exact ih hrules (hP _ _ (hr.edits s) hs)

/-- Behind all rules none of them finds anything, nor does a pattern that found nothing before. -/
theorem applyAll_settles (he : e.Sound) (hshrinks : Shrinks e)
    (hrules : ∀ r ∈ rules, r.Fits e hazards) (hhazards : ∀ p ∈ hazards, Tracks e p)
    {ps : List Pattern} (hps : ∀ p ∈ ps, Tracks e p ∧ p.find? s = none)
    (hs : ∀ p ∈ hazards, p.find? s = none) :
    ∀ p ∈ ps ++ rules.map (·.pattern), p.find? (applyAll rules s) = none := by
  induction rules generalizing s ps with
  | nil => exact fun p hp => (hps p (by simpa using hp)).2
  | cons r rules ih =>
    obtain ⟨hr, hrules⟩ := List.forall_mem_cons.1 hrules
    have hedit : Edited e ((none : Option Char).any isWord) s (r.apply s) := hr.edits s
    have hkept {p : Pattern} (hp : Tracks e p) (hnone : p.find? s = none) :
        p.find? (r.apply s) = none :=
      hp.unmatched he hshrinks hedit (.refl p none) hnone
    have hps' : ∀ p ∈ ps ++ [r.pattern], Tracks e p ∧ p.find? (r.apply s) = none := by
      intro p hp
      rcases List.mem_append.1 hp with hp | hp
      · exact ⟨(hps p hp).1, hkept (hps p hp).1 (hps p hp).2⟩
      · rw [List.mem_singleton.1 hp]
        exact ⟨hr.tracks, hr.settles s hs⟩
    have hlater := ih hrules hps' fun p hp => hkept (hhazards p hp) (hs p hp)
    intro p hp
    exact hlater p (by simpa using hp)

end Rule

end Crosswalk
