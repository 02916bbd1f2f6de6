import Crosswalk.Proofs.Candidate.Repeated
import Crosswalk.Proofs.Pattern.Opening

namespace Crosswalk

open Text Pattern Rules

namespace Direction

def attributes : Direction → List String
  | .kotlinToSwift => ["main", "MainActor", "Observable"]
  | .swiftToKotlin => ["Composable", "HiltViewModel", "Inject", "Serializable", "Parcelize"]

def modifiers : Direction → List String
  | .kotlinToSwift => ["public", "private", "internal", "fileprivate", "open", "final"]
  | .swiftToKotlin => ["public", "private", "internal", "open", "abstract", "sealed", "data",
      "enum", "inline", "value", "annotation"]

def keywords : Direction → List String
  | .kotlinToSwift =>
    ["struct", "class", "enum", "protocol", "extension", "actor", "typealias", "func"]
  | .swiftToKotlin => ["class", "interface", "object", "fun", "typealias"]

def declaration (d : Direction) : Pattern :=
  .seq (Rules.modifiers d.modifiers) (keywordThenWord d.keywords)

end Direction

namespace Pattern

variable {p : Pattern} {last : Option Char} {c : Char} {s : List Char}

theorem matches_anyOf {ps : List Pattern} :
    (anyOf ps).Matches last s ↔ ∃ p ∈ ps, p.Matches last s := by
  constructor
  · rintro ⟨z, rest, rfl, hz⟩
    obtain ⟨p, hp, hz⟩ := takes_anyOf.1 hz
    exact ⟨p, hp, z, rest, rfl, hz⟩
  · rintro ⟨p, hp, z, rest, rfl, hz⟩
    exact ⟨z, rest, rfl, takes_anyOf.2 ⟨p, hp, hz⟩⟩

theorem matches_lineOf (hc : isIndent c = false) : (lineOf p).Matches last (c :: s) ↔
    last.all (· == '\n') = true ∧ p.Matches last (c :: s) := by
  constructor
  · rintro ⟨_, rest, hs, _, _, rfl, ⟨rfl, hline⟩, b, z, rfl, hb, hz⟩
    cases b with
    | nil => exact ⟨hline, z, rest, hs, hz⟩
    | cons d b =>
      obtain ⟨rfl, -⟩ := List.cons.inj hs
      rw [hb c List.mem_cons_self] at hc
      cases hc
  · rintro ⟨hline, z, rest, hs, hz⟩
    exact ⟨z, rest, hs, [], z, rfl, ⟨rfl, hline⟩, [], z, rfl, List.forall_mem_nil _, hz⟩

theorem findFrom_over (hp : p.advances = true) {u : List Char}
    (hu : ∀ x y, u = x ++ y → y ≠ [] → ¬p.Matches (lastOf last x) (y ++ s)) :
    p.findFrom last (u ++ s) = p.findFrom (lastOf last u) s := by
  induction u generalizing last with
  | nil => rfl
  | cons c u ih =>
    have hhere := (matchAt_none hp _ _).2 (hu [] (c :: u) rfl (List.cons_ne_nil c u))
    rw [lastOf_nil, List.cons_append] at hhere
    rw [List.cons_append, findFrom, hhere, lastOf_cons]
    refine ih fun x y hxy hy => ?_
    rw [← lastOf_cons last]
    exact hu (c :: x) y (by rw [hxy]; rfl) hy

end Pattern

namespace Candidate

variable {d : Direction} {name : String} {code : List Char}

/-- A declaration that is kept as it is: it ends with its closing brace, holds no code fence, and
clean-up changes nothing in it. -/
structure IsDeclaration (d : Direction) (code : List Char) : Prop where
  opens : (d.declaration.matchAt (.behind none code)).isSome = true
  closed : code.getLast? = some '\x7d'
  unfenced : ¬fence <:+: code
  clean : Rule.applyAll d.rules.cleanup code = code

theorem IsDeclaration.matches (h : IsDeclaration d code) : d.declaration.Matches none code := by
  obtain ⟨m, hm⟩ := Option.isSome_iff_exists.1 h.opens
  obtain ⟨htext, htakes⟩ := matchAt_matches hm
  exact ⟨_, _, htext, htakes⟩

theorem opens_someBlanks {last : Option Char} {b rest : List Char}
    (hb : someBlanks.Takes last b rest) (s : List Char) : Opens (b ++ s) := by
  obtain ⟨hne, hblank⟩ := takes_atLeastOne.1 hb
  obtain ⟨c, b, rfl⟩ := List.exists_cons_of_ne_nil hne
  exact not_isWord_of_blank (hblank c List.mem_cons_self)

theorem declaration_word (h : d.declaration.Matches none code) :
    ∃ w ∈ d.modifiers ++ d.keywords, ∃ s, code = w.toList ++ s ∧ Opens s := by
  obtain ⟨_, rest, rfl, x, _, rfl, hx, k, _, rfl, hk, b, n, rfl, hb, -⟩ := h
  change Rounds _ none x _ at hx
  cases hx with
  | stop =>
    obtain ⟨w, hw, rfl⟩ := takes_texts.1 hk
    exact ⟨w, List.mem_append_right _ hw, b ++ (n ++ rest), by simp, opens_someBlanks hb _⟩
  | @again _ _ y _ hround _ =>
    obtain ⟨_, b', rfl, hw, hb'⟩ := hround
    obtain ⟨w, hmem, rfl⟩ := takes_texts.1 hw
    exact ⟨w, List.mem_append_left _ hmem, b' ++ (y ++ (k ++ (b ++ (n ++ rest)))), by simp,
      opens_someBlanks hb' _⟩

theorem declaration_words (d : Direction) :
    ∀ w ∈ d.modifiers ++ d.keywords, Word w.toList ∧ w ≠ "import" := by
  cases d <;> decide

def attributed (name : String) (code : List Char) : List Char :=
  '@' :: (name.toList ++ '\n' :: code)

theorem matches_attribute {q : Pattern} {ws : List String} (hws : ∀ w ∈ ws, Word w.toList)
    (hq : ∀ {z rest}, q.Takes none z rest ↔ ∃ w ∈ ws, z = '@' :: w.toList)
    (hname : Word name.toList) (code : List Char) :
    (Pattern.seq q .boundary).Matches none (attributed name code) ↔ name ∈ ws := by
  have hend {w : String} (hw : Word w.toList) (rest : List Char) :
      isBoundary (lastOf none ('@' :: w.toList)) rest.head? = true ↔ Opens rest := by
    rw [lastOf_cons]
    exact boundary_iff_opens (lastOf_of_word hw _)
  constructor
  · rintro ⟨_, rest, hs, z, _, rfl, hz, rfl, hboundary⟩
    obtain ⟨w, hw, rfl⟩ := hq.1 hz
    rw [List.append_nil] at hs
    obtain ⟨hsame, -⟩ := hname.whole_unique (hws w hw) (opens_cons.2 (by decide))
      ((hend (hws w hw) rest).1 hboundary) (List.cons.inj hs).2
    rwa [String.toList_inj.1 hsame]
  · intro hmem
    refine ⟨'@' :: name.toList, '\n' :: code, rfl, '@' :: name.toList, [],
      (List.append_nil _).symm, hq.2 ⟨name, hmem, rfl⟩, rfl, ?_⟩
    exact (hend hname _).2 (opens_cons.2 (by decide))

theorem not_matches_testable (hname : Word name.toList) (hcode : d.declaration.Matches none code) :
    ¬(sequence [text "@testable", someBlanks, text "import", .boundary]).Matches none
      (attributed name code) := by
  rintro ⟨_, rest, hs, x, _, rfl, hx, b, _, rfl, hb, y, _, rfl, hy, rfl, hboundary⟩
  obtain rfl := takes_text.1 hx
  obtain rfl := takes_text.1 hy
  have himport : Word "import".toList := by decide
  have hopens : Opens rest := (boundary_iff_opens (lastOf_of_word himport _)).1 hboundary
  have htestable : "@testable".toList = '@' :: "testable".toList := by decide
  simp only [attributed, htestable, List.cons_append, List.append_assoc, List.cons.injEq, true_and,
    List.nil_append] at hs
  obtain ⟨-, hline⟩ := hname.whole_unique (by decide) (opens_cons.2 (by decide))
    (opens_someBlanks hb _) hs
  obtain ⟨w, hmem, s, rfl, hs'⟩ := declaration_word hcode
  obtain ⟨hw, hother⟩ := declaration_words d w hmem
  obtain ⟨hne, hblank⟩ := takes_atLeastOne.1 hb
  obtain ⟨c, b, rfl⟩ := List.exists_cons_of_ne_nil hne
  obtain ⟨-, hblank⟩ := List.forall_mem_cons.1 hblank
  obtain ⟨-, hcode⟩ := List.cons.inj hline
  cases b with
  | nil =>
    obtain ⟨hsame, -⟩ := hw.whole_unique himport hs' hopens hcode
    exact hother (String.toList_inj.1 hsame)
  | cons c b =>
    refine hw.not_opens s ?_
    rw [hcode]
    exact not_isWord_of_blank (hblank c List.mem_cons_self)

theorem not_matches_at {p : Pattern} (htakes : p.takes = true) (hp : p.starts none '@' = false)
    (name : String) (code : List Char) : ¬p.Matches none (attributed name code) :=
  not_matches_first htakes hp

theorem swiftAnchor_attribute (hname : Word name.toList)
    (hcode : Direction.kotlinToSwift.declaration.Matches none code) :
    swiftAnchor.Matches none (attributed name code) ↔
      name ∈ Direction.kotlinToSwift.attributes := by
  have hmarked {a w : String} (ha : a.toList = '@' :: w.toList) (hw : Word w.toList) :
      (Pattern.seq (text a) .boundary).Matches none (attributed name code) ↔ name = w := by
    rw [← List.mem_singleton]
    exact matches_attribute (List.forall_mem_singleton.2 hw) (by simp [takes_text, ha]) hname code
  have himport := not_matches_at (p := keywordThenWord ["import"]) (by decide) (by decide) name code
  have hdeclaration := not_matches_at (p := Direction.kotlinToSwift.declaration) (by decide)
    (by decide) name code
  have hmain := hmarked (a := "@main") (w := "main") (by decide) (by decide)
  have hactor := hmarked (a := "@MainActor") (w := "MainActor") (by decide) (by decide)
  have hobservable := hmarked (a := "@Observable") (w := "Observable") (by decide) (by decide)
  have hanchor : swiftAnchor = lineOf (anyOf [keywordThenWord ["import"],
      sequence [text "@testable", someBlanks, text "import", .boundary],
      .seq (text "@main") .boundary, .seq (text "@MainActor") .boundary,
      .seq (text "@Observable") .boundary, Direction.kotlinToSwift.declaration]) := rfl
  rw [hanchor, attributed, matches_lineOf (by decide), matches_anyOf, ← attributed]
  simp only [List.exists_mem_cons_iff, List.not_mem_nil, false_and, exists_false, himport,
    hdeclaration, not_matches_testable hname hcode, hmain, hactor, hobservable,
    Direction.attributes]
  simp

theorem kotlinAnchor_attribute (hname : Word name.toList) :
    kotlinAnchor.Matches none (attributed name code) ↔
      name ∈ Direction.swiftToKotlin.attributes := by
  have hpackage := not_matches_at (p := keywordThenWord ["package"]) (by decide) (by decide) name
    code
  have himport := not_matches_at (p := keywordThenWord ["import"]) (by decide) (by decide) name code
  have hdeclaration := not_matches_at (p := Direction.swiftToKotlin.declaration) (by decide)
    (by decide) name code
  have hmarked : (sequence [char '@', texts Direction.swiftToKotlin.attributes, .boundary]).Matches
      none (attributed name code) ↔ name ∈ Direction.swiftToKotlin.attributes := by
    have hq {z rest : List Char} :
        (Pattern.seq (char '@') (texts Direction.swiftToKotlin.attributes)).Takes none z rest ↔
          ∃ w ∈ Direction.swiftToKotlin.attributes, z = '@' :: w.toList := by
      constructor
      · rintro ⟨x, y, rfl, hx, hy⟩
        obtain ⟨w, hw, rfl⟩ := takes_texts.1 hy
        exact ⟨w, hw, by rw [takes_char.1 hx]; rfl⟩
      · rintro ⟨w, hw, rfl⟩
        exact ⟨['@'], w.toList, rfl, takes_char.2 rfl, takes_texts.2 ⟨w, hw, rfl⟩⟩
    refine Iff.trans ?_ (matches_attribute (by decide) hq hname code)
    exact exists_congr fun z => exists_congr fun rest => and_congr_right fun _ => takes_assoc
  have hanchor : kotlinAnchor = lineOf (anyOf [keywordThenWord ["package"],
      keywordThenWord ["import"],
      sequence [char '@', texts Direction.swiftToKotlin.attributes, .boundary],
      Direction.swiftToKotlin.declaration]) := rfl
  rw [hanchor, attributed, matches_lineOf (by decide), matches_anyOf, ← attributed]
  simp only [List.exists_mem_cons_iff, List.not_mem_nil, false_and, exists_false, hpackage, himport,
    hdeclaration, hmarked]
  simp

theorem codeAnchor_attribute (hname : Word name.toList) (hcode : d.declaration.Matches none code) :
    d.rules.codeAnchor.Matches none (attributed name code) ↔ name ∈ d.attributes := by
  cases d with
  | kotlinToSwift => exact swiftAnchor_attribute hname hcode
  | swiftToKotlin => exact kotlinAnchor_attribute hname

theorem codeAnchor_declaration {last : Option Char} (hline : last.all (· == '\n') = true)
    (hcode : d.declaration.Matches none code) : d.rules.codeAnchor.Matches last code := by
  obtain ⟨ps, hanchor, hmem⟩ : ∃ ps, d.rules.codeAnchor = lineOf (anyOf ps) ∧
      d.declaration ∈ ps := by
    cases d <;> exact ⟨_, rfl, List.mem_of_getLast? rfl⟩
  have hplain : d.declaration.sees = true ∧ d.declaration.linewise = false := by
    cases d <;> decide
  obtain ⟨z, rest, rfl, hz⟩ := hcode
  have hz' := hz.elsewhere hplain.1 (.other hplain.2 rfl (not_isWord_of_lineStart hline)) rfl
  rw [hanchor]
  exact ⟨z, rest, rfl, [], z, rfl, ⟨rfl, hline⟩, [], z, rfl, List.forall_mem_nil _,
    takes_anyOf.2 ⟨_, hmem, hz'⟩⟩

theorem fromAnchor?_of_matches {rules : RuleSet} {s : List Char}
    (hadvances : rules.codeAnchor.advances = true) (h : rules.codeAnchor.Matches none s) :
    fromAnchor? rules s = some s := by
  obtain ⟨m, hm, hafter⟩ := findFrom_here hadvances h
  exact Option.map_eq_some_iff.2 ⟨m, hm, hafter⟩

theorem attributed_eq (name : String) (code : List Char) :
    attributed name code = '@' :: (name.toList ++ ['\n']) ++ code := by
  simp [attributed]

/-- Code that starts on the line of the attribute starts at the attribute. -/
theorem codeAnchor_within (hname : Word name.toList) {x y : List Char}
    (hline : '@' :: (name.toList ++ ['\n']) = x ++ y) (hy : y ≠ [])
    (hmatches : d.rules.codeAnchor.Matches (lastOf none x) (y ++ code)) :
    d.rules.codeAnchor.Matches none (attributed name code) := by
  obtain ⟨z, c, rfl⟩ := (List.eq_nil_or_concat' y).resolve_left hy
  have hinit : '@' :: name.toList = x ++ z :=
    List.append_inj_left' (hline.trans (List.append_assoc x z [c]).symm) rfl
  have hfree : '\n' ∉ x := fun hin => by
    rcases List.mem_cons.1 (hinit ▸ List.mem_append_left z hin) with hat | hin
    · cases hat
    · exact hname.free (by decide) hin
  obtain rfl := lastOf_line hfree (codeAnchor_atLineStart hmatches)
  rwa [attributed_eq, hline]

theorem fromAnchor?_attributed (hname : Word name.toList)
    (hcode : d.declaration.Matches none code) : fromAnchor? d.rules (attributed name code)
      = some (if name ∈ d.attributes then attributed name code else code) := by
  have hadvances := codeAnchor_advances d
  split
  · next hmem =>
    exact fromAnchor?_of_matches hadvances ((codeAnchor_attribute hname hcode).2 hmem)
  · next hmem =>
    have hover : ∀ x y, '@' :: (name.toList ++ ['\n']) = x ++ y → y ≠ [] →
        ¬d.rules.codeAnchor.Matches (lastOf none x) (y ++ code) :=
      fun _ _ hline hy hmatches => hmem
        ((codeAnchor_attribute hname hcode).1 (codeAnchor_within hname hline hy hmatches))
    have hlast : lastOf none ('@' :: (name.toList ++ ['\n'])) = some '\n' := by
      rw [lastOf_cons, lastOf_append]
      rfl
    have hdeclared : d.rules.codeAnchor.Matches (some '\n') code := codeAnchor_declaration rfl hcode
    obtain ⟨m, hm, hafter⟩ := findFrom_here hadvances hdeclared
    refine Option.map_eq_some_iff.2 ⟨m, ?_, hafter⟩
    rw [find?, attributed_eq, findFrom_over hadvances hover, hlast, hm]

theorem quiet_attribute (d : Direction) : ∀ w ∈ d.attributes, ∀ r ∈ d.rules.cleanup,
    r.pattern.quiet none ('@' :: w.toList ++ ['\n']) = true := by
  cases d <;> decide

theorem clean_attributed (hmem : name ∈ d.attributes) (code : List Char) :
    Rule.applyAll d.rules.cleanup (attributed name code)
      = attributed name (Rule.applyAll d.rules.cleanup code) := by
  refine Rule.applyAll_below (u := '@' :: name.toList) (fun r hr => ?_) code
  obtain ⟨hadvances, hsees⟩ := d.cleanup_sees r hr
  exact ⟨hsees, hadvances, (d.cleanup_unticking r hr).takes, quiet_attribute d name hmem r hr⟩

theorem IsDeclaration.trimmed (h : IsDeclaration d code) :
    code.head?.any isBlank = false ∧ code.getLast?.any isBlank = false := by
  obtain ⟨w, hmem, s, hs, -⟩ := declaration_word h.matches
  obtain ⟨c, rest, hc⟩ := List.exists_cons_of_ne_nil (declaration_words d w hmem).1.nonempty
  have hword := List.all_eq_true.1 (declaration_words d w hmem).1.all c (by simp [hc])
  have hblank : isBlank c = false := Bool.eq_false_iff.2 fun hblank => by
    rw [not_isWord_of_blank hblank] at hword
    cases hword
  refine ⟨by simpa [hs, hc] using hblank, ?_⟩
  rw [h.closed]
  decide

theorem ofChars_attributed (hname : Word name.toList) (hcode : IsDeclaration d code) :
    ofChars d.rules (attributed name code)
      = if name ∈ d.attributes then attributed name code else code := by
  have hfences : dropFences (attributed name code) = attributed name code := by
    refine unfenced_free (fun hin => hcode.unfenced ?_) none
    have hline : '\x60' ∉ '@' :: (name.toList ++ ['\n']) := by
      simpa using hname.free (by decide)
    rwa [attributed_eq, free_apart hline] at hin
  obtain ⟨inner, rfl⟩ := List.getLast?_eq_some_iff.1 hcode.closed
  have hclosed : attributed name (inner ++ ['\x7d'])
      = ('@' :: (name.toList ++ '\n' :: inner)) ++ ['\x7d'] := by simp [attributed]
  simp only [ofChars, hfences, fromAnchor?_attributed hname hcode.matches]
  split
  · next hmem =>
    rw [hclosed, dropEpilogue_closed, ← hclosed, clean_attributed hmem, hcode.clean]
    refine trim_self rfl ?_
    rw [hclosed, List.getLast?_concat]
    decide
  · rw [dropEpilogue_closed, hcode.clean]
    exact trim_self hcode.trimmed.1 hcode.trimmed.2

/-- Before a declaration an attribute is kept if it is one of those at which code starts, and it is
dropped otherwise. The declaration is kept. -/
theorem ofAnswer_attributed (d : Direction) {name code : String} (hname : Word name.toList)
    (hcode : IsDeclaration d code.toList) : ofAnswer d ("@" ++ name ++ "\n" ++ code)
      = if name ∈ d.attributes then "@" ++ name ++ "\n" ++ code else code := by
  have hanswer : ("@" ++ name ++ "\n" ++ code).toList = attributed name code.toList := by
    simp [attributed]
  rw [ofAnswer, hanswer, ofChars_attributed hname hcode, apply_ite String.ofList, ← hanswer,
    String.ofList_toList, String.ofList_toList]

theorem ofAnswer_attributed_main : Word "main".toList ∧
    IsDeclaration .kotlinToSwift "struct A \x7b\x7d".toList ∧
    ofAnswer .kotlinToSwift ("@" ++ "main" ++ "\n" ++ "struct A \x7b\x7d")
      = "@" ++ "main" ++ "\n" ++ "struct A \x7b\x7d" := by
  have hname : Word "main".toList := by decide
  have hcode : IsDeclaration .kotlinToSwift "struct A \x7b\x7d".toList :=
    ⟨by decide, by decide, by decide, by decide⟩
  have hmain : "main" ∈ Direction.kotlinToSwift.attributes := by decide
  exact ⟨hname, hcode, (ofAnswer_attributed .kotlinToSwift hname hcode).trans (if_pos hmain)⟩

/-- An attribute that is none of these is lost. -/
theorem ofAnswer_attribute_lost : Word "objc".toList ∧
    IsDeclaration .kotlinToSwift "class A \x7b\x7d".toList ∧
    ofAnswer .kotlinToSwift "@objc\nclass A \x7b\x7d" ≠ "@objc\nclass A \x7b\x7d" := by
  have hcode : IsDeclaration .kotlinToSwift "class A \x7b\x7d".toList :=
    ⟨by decide, by decide, by decide, by decide⟩
  have hattributed : "@objc\nclass A \x7b\x7d".toList
      = attributed "objc" "class A \x7b\x7d".toList := by decide
  refine ⟨by decide, hcode, ?_⟩
  rw [ofAnswer, hattributed, ofChars_attributed (by decide) hcode]
  decide

end Candidate

end Crosswalk
