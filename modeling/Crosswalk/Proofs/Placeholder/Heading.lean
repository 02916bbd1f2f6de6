import Crosswalk.Oracle.Chain
import Crosswalk.Oracle.Chat
import Crosswalk.Proofs.Placeholder.Comment
import Crosswalk.Proofs.Text.Lines

namespace Crosswalk

open Text

namespace Placeholder

/-- Every line of the text but the first one starts a line comment: behind the start of a line
comment, the text is comment to its end. -/
def GoesOn (s : List Char) : Prop := ∀ line ∈ (splitAtChar '\n' s).tail, "//".toList <+: line

instance (s : List Char) : Decidable (GoesOn s) :=
  inferInstanceAs (Decidable (∀ line ∈ (splitAtChar '\n' s).tail, "//".toList <+: line))

section

variable {u s t : List Char} {c : Char}

theorem prefix_apart (hc : c ∉ u) : u <+: s ++ c :: t ↔ u <+: s := by
  refine ⟨fun ⟨r, hr⟩ => ?_, fun h => h.trans (List.prefix_append s (c :: t))⟩
  rcases List.append_eq_append_iff.1 hr with ⟨x, rfl, -⟩ | ⟨x, rfl, hx⟩
  · exact List.prefix_append u x
  · cases x with
    | nil => rw [List.append_nil]
    | cons d x =>
      cases hx
      exact absurd (List.mem_append_right s List.mem_cons_self) hc

theorem goesOn_free (hs : '\n' ∉ s) : GoesOn s := by
  rw [GoesOn, splitAtChar_free hs]
  exact fun line hline => absurd hline List.not_mem_nil

theorem goesOn_nil : GoesOn [] := goesOn_free List.not_mem_nil

theorem goesOn_join (hline : c ≠ '\n') (hslash : c ≠ '/') (s t : List Char) :
    GoesOn (s ++ c :: t) ↔ GoesOn s ∧ GoesOn t := by
  obtain ⟨before, last, first, after, hs, ht, hst⟩ := splitAtChar_join hline s t
  have hlast : "//".toList <+: last ++ c :: first ↔ "//".toList <+: last :=
    prefix_apart (by simp [hslash])
  rw [GoesOn, GoesOn, GoesOn, hs, ht, hst]
  cases before with
  | nil => simp
  | cons piece before =>
    simp only [List.cons_append, List.tail_cons, List.forall_mem_append, List.forall_mem_cons,
      List.not_mem_nil,
      IsEmpty.forall_iff, implies_true, true_and, hlast, and_assoc]

theorem goesOn_behind (hs : '\n' ∉ s) (t : List Char) : GoesOn (s ++ t) ↔ GoesOn t := by
  induction s with
  | nil => rfl
  | cons c s ih =>
    rw [List.mem_cons, not_or] at hs
    obtain ⟨first, rest, hrest⟩ := List.exists_cons_of_ne_nil (splitAtChar_ne_nil '\n' (s ++ t))
    rw [← ih hs.2]
    simp [GoesOn, splitAtChar, Ne.symm hs.1, hrest]

theorem goesOn_between (hu : '\n' ∉ u) (hhead : u.head?.any (· != '/')) (s t : List Char) :
    GoesOn (s ++ (u ++ t)) ↔ GoesOn s ∧ GoesOn t := by
  cases u with
  | nil => cases hhead
  | cons c v =>
    rw [List.mem_cons, not_or] at hu
    rw [List.cons_append, goesOn_join (Ne.symm hu.1) (bne_iff_ne.1 hhead), goesOn_behind hu.2]

theorem goesOn_iff : (∀ line ∈ splitAtChar '\n' s, "//".toList <+: line) ↔
    "//".toList <+: s ∧ GoesOn s := by
  obtain ⟨rest, hrest⟩ := splitAtChar_takeWhile s
  obtain ⟨more, hmore, -, hstart⟩ := takeWhile_line s
  rw [GoesOn, hrest, List.forall_mem_cons, List.tail_cons]
  refine and_congr_left fun _ => ?_
  conv_rhs => rw [hmore]
  rcases hstart with rfl | ⟨r, rfl⟩
  · rw [List.append_nil]
  · exact (prefix_apart (by decide)).symm

theorem prefix_dropReturn (hu : '\r' ∉ u) : u <+: dropReturn s ↔ u <+: s := by
  unfold dropReturn
  split
  · next hlast =>
    rw [← List.dropLast_append_getLast? _ hlast, List.dropLast_concat, prefix_apart hu]
  · exact Iff.rfl

theorem lines_comment (t : List Char) : (∀ line ∈ lines (s ++ '\n' :: t), "//".toList <+: line) ↔
    ("//".toList <+: s ∧ GoesOn s) ∧ ∀ line ∈ lines t, "//".toList <+: line := by
  have hreturn (line : List Char) : "//".toList <+: dropReturn line ↔ "//".toList <+: line :=
    prefix_dropReturn (by decide)
  rw [lines_append, List.forall_mem_append, List.forall_mem_map]
  simp only [hreturn, goesOn_iff]

end

theorem name_line (l : Language) : '\n' ∉ l.name.toList := by
  cases l <;> decide

def noticeLine (reason : String) : String :=
  header ++ ": automatic conversion unavailable (" ++ reason ++ ")"

def sourceLine (file : Source) (d : Direction) : String :=
  "// Source: " ++ file.path ++ (" (" ++ file.language.name ++ " -> " ++ d.target.name ++ ")")

theorem heading_lines (file : Source) (d : Direction) (reason : String) :
    (heading file d reason).toList = (noticeLine reason).toList ++ '\n' ::
      ((sourceLine file d).toList ++ '\n' ::
        ("// Convert this file manually.".toList ++ '\n' :: [])) := by
  have hclose : ")\n".toList = ")".toList ++ ['\n'] := by decide
  have hlast : "// Convert this file manually.\n".toList
      = "// Convert this file manually.".toList ++ ['\n'] := by decide
  simp only [heading, noticeLine, sourceLine, String.toList_append, hclose, hlast,
    List.append_assoc, List.cons_append, List.nil_append]

theorem goesOn_quoted {before after : List Char} (hbefore : '\n' ∉ before) (hafter : '\n' ∉ after)
    (hhead : after.head?.any (· != '/')) (s : List Char) :
    GoesOn (before ++ (s ++ after)) ↔ GoesOn s := by
  rw [goesOn_behind hbefore, ← List.append_nil after, goesOn_between hafter hhead,
    and_iff_left goesOn_nil]

theorem goesOn_noticeLine (reason : String) :
    GoesOn (noticeLine reason).toList ↔ GoesOn reason.toList := by
  have hbefore : '\n' ∉ (header ++ ": automatic conversion unavailable (").toList := by decide
  rw [noticeLine, String.toList_append, String.toList_append, List.append_assoc]
  exact goesOn_quoted hbefore (by decide) (by decide) _

theorem goesOn_sourceLine (file : Source) (d : Direction) :
    GoesOn (sourceLine file d).toList ↔ GoesOn file.path.toList := by
  rw [sourceLine, String.toList_append, String.toList_append, List.append_assoc]
  exact goesOn_quoted (by decide) (by simp [name_line]) (by simp) _

theorem heading_comment (file : Source) (d : Direction) (reason : String) :
    (∀ line ∈ lines (heading file d reason).toList, "//".toList <+: line) ↔
      GoesOn file.path.toList ∧ GoesOn reason.toList := by
  have hnotice : "//".toList <+: (noticeLine reason).toList := by
    simp [noticeLine, header]
  have hsource : "//".toList <+: (sourceLine file d).toList := by
    simp [sourceLine]
  have hlast : "//".toList <+: "// Convert this file manually.".toList ∧
      GoesOn "// Convert this file manually.".toList := by decide
  have hnil : ∀ line ∈ lines [], "//".toList <+: line := List.forall_mem_nil _
  rw [heading_lines, lines_comment, lines_comment, lines_comment, goesOn_noticeLine,
    goesOn_sourceLine, and_iff_right hnotice, and_iff_right hsource, and_iff_right hlast,
    and_iff_left hnil, and_comm]

theorem toString_line (n : Nat) : '\n' ∉ (toString n).toList := by
  intro h
  rw [show toString n = n.repr from rfl, Nat.toList_repr] at h
  exact absurd (Nat.isDigit_of_mem_toDigits (by decide) (by decide) h) (by decide)

theorem goesOn_unreachable (detail : String) :
    GoesOn (OracleFault.unreachable detail).message.toList ↔ GoesOn detail.toList := by
  unfold OracleFault.message
  rw [String.toList_append, goesOn_behind (by decide)]

theorem goesOn_timeout (seconds : Nat) : GoesOn (OracleFault.timeout seconds).message.toList := by
  have hline : '\n' ∉ "Oracle timed out after ".toList ∧ '\n' ∉ "s".toList := by decide
  refine goesOn_free ?_
  unfold OracleFault.message
  simp only [String.toList_append, List.mem_append, not_or]
  exact ⟨⟨hline.1, toString_line seconds⟩, hline.2⟩

theorem goesOn_status {before after : String} (hbefore : '\n' ∉ before.toList)
    (hafter : '\n' ∉ after.toList) (status : Nat) (body : String) :
    GoesOn (before ++ toString status ++ after ++ body).toList ↔ GoesOn body.toList := by
  simp only [String.toList_append, List.append_assoc]
  rw [goesOn_behind hbefore, goesOn_behind (toString_line status), goesOn_behind hafter]

theorem goesOn_refusal (status : Nat) (body : String) :
    GoesOn (ChatService.refusal status body).message.toList ↔ GoesOn body.toList := by
  rw [ChatService.refusal]
  split
  · rw [goesOn_unreachable]
    exact goesOn_status (by decide) (by decide) status body
  · exact goesOn_status (by decide) (by decide) status body

theorem goesOn_intercalate (texts : List (List Char)) :
    GoesOn ("; ".toList.intercalate texts) ↔ ∀ t ∈ texts, GoesOn t := by
  induction texts with
  | nil => simp [goesOn_nil]
  | cons t texts ih =>
    cases texts with
    | nil => simp
    | cons t' texts =>
      rw [List.intercalate_cons_cons, List.append_assoc, goesOn_between (by decide) (by decide), ih,
        List.forall_mem_cons (l := t' :: texts)]

theorem goesOn_combined {faults : List (String × OracleFault)}
    (hall : ∀ f ∈ faults, f.2.isTransport = true) : GoesOn (Chain.combined faults).message.toList ↔
      ∀ f ∈ faults, GoesOn f.1.toList ∧ GoesOn f.2.message.toList := by
  have hfind : faults.find? (fun f => !f.2.isTransport) = none := by simpa using hall
  have hturn (f : String × OracleFault) : GoesOn (f.1 ++ ": " ++ f.2.message).toList ↔
      GoesOn f.1.toList ∧ GoesOn f.2.message.toList := by
    simp only [String.toList_append, List.append_assoc]
    exact goesOn_between (by decide) (by decide) _ _
  rw [Chain.combined, hfind, goesOn_unreachable, String.toList_append, String.toList_append,
    List.append_assoc, goesOn_quoted (by decide) (by decide) (by decide),
    String.toList_intercalate, goesOn_intercalate]
  simp only [List.map_map, List.forall_mem_map, Function.comp_apply, hturn]

theorem lines_render (file : Source) (d : Direction) (reason : String) :
    ∃ rest, lines (render file d reason).toList
      = lines (heading file d reason).toList ++ "/*".toList :: rest := by
  have hclosed : ∃ s, (heading file d reason).toList = s ++ '\n' :: [] := by
    have hlast : "// Convert this file manually.\n".toList
        = "// Convert this file manually.".toList ++ '\n' :: [] := rfl
    rw [heading, String.toList_append, hlast, ← List.append_assoc]
    exact ⟨_, rfl⟩
  have hblock : blockComment (body file.content.toList)
      = "/*".toList ++ '\n' :: (body file.content.toList ++ "\n*/\n".toList) := rfl
  have hopens : (splitAtChar '\n' "/*".toList).map dropReturn = ["/*".toList] := by decide
  have hnil : lines [] = [] := rfl
  obtain ⟨s, hs⟩ := hclosed
  rw [render_eq, hblock, hs, List.append_assoc, List.cons_append, lines_append, lines_append s [],
    List.nil_append, lines_append, hopens, hnil, List.append_nil]
  exact ⟨_, rfl⟩

/-- Behind the heading a placeholder opens its block comment. The lines of the heading are comments
if and only if the path of the file and the message of the fault are comment behind their first
lines. The message that a request has run out of time is; the answer of a service that refuses is
quoted as it comes, and so are the faults of providers that have all failed in transport. -/
theorem render_heading (file : Source) (d : Direction) (fault : OracleFault)
    {faults : List (String × OracleFault)} (hall : ∀ f ∈ faults, f.2.isTransport = true) :
    (∃ rest, lines (render file d fault.message).toList
        = lines (heading file d fault.message).toList ++ "/*".toList :: rest) ∧
      ((∀ line ∈ lines (heading file d fault.message).toList, "//".toList <+: line) ↔
        GoesOn file.path.toList ∧ GoesOn fault.message.toList) ∧
      (∀ seconds, GoesOn (OracleFault.timeout seconds).message.toList) ∧
      (∀ detail, GoesOn (OracleFault.unreachable detail).message.toList ↔ GoesOn detail.toList) ∧
      (∀ status body,
        GoesOn (ChatService.refusal status body).message.toList ↔ GoesOn body.toList) ∧
      (GoesOn (Chain.combined faults).message.toList ↔
        ∀ f ∈ faults, GoesOn f.1.toList ∧ GoesOn f.2.message.toList) :=
  ⟨lines_render file d fault.message, heading_comment file d fault.message, goesOn_timeout,
    goesOn_unreachable, goesOn_refusal, goesOn_combined hall⟩

/-- A gateway answers with a text that leaves the comment. -/
theorem heading_left : (ChatService.refusal 503 "busy\nfatalError()").isTransport = true ∧
    ¬∀ line ∈ lines (heading (.ofPath "A.kt" "class A") .kotlinToSwift
      (ChatService.refusal 503 "busy\nfatalError()").message).toList, "//".toList <+: line := by
  rw [heading_comment, goesOn_refusal]
  decide

def gateways : List (String × OracleFault) :=
  [("main", ChatService.refusal 503 "busy\n// wait"), ("spare", .timeout 120)]

theorem gateways_heading : (∀ f ∈ gateways, f.2.isTransport = true) ∧
    ∀ line ∈ lines (heading (.ofPath "A.kt" "class A") .kotlinToSwift
      (Chain.combined gateways).message).toList, "//".toList <+: line := by
  have hall : ∀ f ∈ gateways, f.2.isTransport = true := by decide
  obtain ⟨-, hheading, htimeout, -, hrefusal, hcombined⟩ :=
    render_heading (.ofPath "A.kt" "class A") .kotlinToSwift (Chain.combined gateways) hall
  refine ⟨hall, hheading.2 ⟨by decide, hcombined.2 ?_⟩⟩
  refine List.forall_mem_cons.2 ⟨⟨by decide, (hrefusal 503 "busy\n// wait").2 (by decide)⟩, ?_⟩
  exact List.forall_mem_singleton.2 ⟨by decide, htimeout 120⟩

end Placeholder

end Crosswalk
