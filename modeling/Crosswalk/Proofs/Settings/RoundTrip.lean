import Crosswalk.Proofs.Data.Carried
import Crosswalk.Proofs.Fault
import Crosswalk.Proofs.Files.Places
import Crosswalk.Proofs.Text.Utf8
import Crosswalk.Settings.File

namespace Crosswalk

open Decode Value

theorem Direction.reads (d : Direction) : Reads (choice? tags) (.string d.name) d :=
  reads_choice (by cases d <;> decide)

theorem Preset.reads (p : Preset) : Reads (choice? tags) (.string p.name) p :=
  reads_choice (by cases p <;> decide)

theorem OracleMode.reads (m : OracleMode) : Reads (choice? tags) (.string m.name) m :=
  reads_choice (by cases m <;> decide)

theorem CheckerMode.reads (m : CheckerMode) : Reads (choice? tags) (.string m.name) m :=
  reads_choice (by cases m <;> decide)

theorem ProviderSettings.reads (p : ProviderSettings) : Reads decode? p.encode p := by
  refine reads_record fun fs h => ?_
  obtain ⟨hname, hbaseUrl, hmodel, hapiKey, hapiKeyEnv, hheaders, -⟩ := by
    simpa only [List.forall_mem_cons] using h.written
  rw [decode?, fields?_arrive h, Option.bind_eq_bind, Option.bind_some,
    (reads_string p.name).defaulted hname, (reads_string p.baseUrl).defaulted hbaseUrl,
    (reads_string p.model).defaulted hmodel, defaulted_ofOption (fun _ _ => reads_string _) hapiKey,
    defaulted_ofOption (fun _ _ => reads_string _) hapiKeyEnv,
    (reads_table p.headers).defaulted hheaders]
  rfl

/-- Every number has its machine word, and those of 64 bits stay below a bound of the format. -/
structure Settings.Sized (bound : Nat) (s : Settings) : Prop where
  oracleTimeout : s.oracle.timeoutSecs ≤ bound
  providerTimeout : ∀ n ∈ s.oracle.providerTimeoutSecs, n ≤ bound
  maxTokens : s.oracle.maxTokens ≤ Settings.word32
  checkerTimeout : s.checker.timeoutSecs ≤ bound
  maxAttempts : s.pipeline.maxAttempts ≤ Settings.word32
  sequentialThreshold : s.pipeline.sequentialThreshold ≤ Settings.word32
  maxConcurrency : s.pipeline.maxConcurrency ≤ bound
  defaultAttempts : ∀ n ∈ s.pipeline.defaults.maxAttempts, n ≤ Settings.word32

section Sized

variable {bound : Nat} {s : Settings}

theorem OracleSettings.reads (hbound : bound ≤ Settings.word64) (h : s.Sized bound) :
    Reads decode? s.oracle.encode s.oracle := by
  refine reads_record fun fs harrive => ?_
  obtain ⟨hmode, hproviders, hhints, htimeout, hprovider, htokens, hstreaming, -⟩ := by
    simpa only [List.forall_mem_cons] using harrive.written
  rw [decode?, fields?_arrive harrive, Option.bind_eq_bind, Option.bind_some]
  dsimp only
  rw [s.oracle.mode.reads.defaulted hmode,
    (reads_list ProviderSettings.reads s.oracle.providers).defaulted hproviders,
    (reads_table s.oracle.modelHints).defaulted hhints,
    (reads_word64 (h.oracleTimeout.trans hbound)).defaulted htimeout,
    defaulted_ofOption (fun n hn => reads_word64 ((h.providerTimeout n hn).trans hbound)) hprovider,
    (reads_word32 h.maxTokens).defaulted htokens,
    (reads_bool s.oracle.streaming).defaulted hstreaming]
  rfl

theorem CheckerSettings.reads (hbound : bound ≤ Settings.word64) (h : s.Sized bound) :
    Reads decode? s.checker.encode s.checker := by
  refine reads_record fun fs harrive => ?_
  obtain ⟨hmode, hcommand, hargs, hsource, hshadow, hendpoint, htimeout, -⟩ := by
    simpa only [List.forall_mem_cons] using harrive.written
  have hstring {o : Option String} : ∀ t ∈ o, Reads string? (.string t) t :=
    fun t _ => reads_string t
  rw [decode?, fields?_arrive harrive, Option.bind_eq_bind, Option.bind_some]
  dsimp only
  rw [s.checker.mode.reads.defaulted hmode, defaulted_ofOption hstring hcommand,
    (reads_list reads_string s.checker.args).defaulted hargs, defaulted_ofOption hstring hsource,
    defaulted_ofOption hstring hshadow, defaulted_ofOption hstring hendpoint,
    (reads_word64 (h.checkerTimeout.trans hbound)).defaulted htimeout]
  rfl

theorem CallOptions.reads {o : CallOptions} (h : ∀ n ∈ o.maxAttempts, n ≤ Settings.word32) :
    Reads decode? o.encode o := by
  obtain ⟨direction, preset, temperature, maxAttempts, model, modelHint⟩ := o
  refine reads_record fun fs harrive => ?_
  have hdirection : defaulted fs "direction" none (optional? (choice? Direction.tags))
      = some direction :=
    defaulted_member harrive (fun d _ => d.reads) (by simp +contextual) (by simp +contextual)
  have hpreset : defaulted fs "preset" none (optional? (choice? Preset.tags)) = some preset :=
    defaulted_member harrive (fun p _ => p.reads) (by simp +contextual) (by simp +contextual)
  have htemperature : defaulted fs "temperature" none (optional? real?) = some temperature :=
    defaulted_member harrive (fun x _ => reads_real x) (by simp +contextual) (by simp +contextual)
  have hattempts : defaulted fs "maxAttempts" none (optional? word32?) = some maxAttempts :=
    defaulted_member harrive (fun n hn => reads_word32 (h n hn)) (by simp +contextual)
      (by simp +contextual)
  have hmodel : defaulted fs "model" none (optional? string?) = some model :=
    defaulted_member harrive (fun t _ => reads_string t) (by simp +contextual) (by simp +contextual)
  have hhint : defaulted fs "modelHint" none (optional? string?) = some modelHint :=
    defaulted_member harrive (fun t _ => reads_string t) (by simp +contextual) (by simp +contextual)
  rw [decode?, fields?_arrive harrive, Option.bind_eq_bind, Option.bind_some]
  dsimp only
  rw [hdirection, hpreset, htemperature, hattempts, hmodel, hhint]
  rfl

theorem PipelineSettings.reads (hbound : bound ≤ Settings.word64) (h : s.Sized bound) :
    Reads decode? s.pipeline.encode s.pipeline := by
  refine reads_record fun fs harrive => ?_
  obtain ⟨hattempts, hthreshold, hconcurrency, hdefaults, -⟩ := by
    simpa only [List.forall_mem_cons] using harrive.written
  rw [decode?, fields?_arrive harrive, Option.bind_eq_bind, Option.bind_some]
  dsimp only
  rw [(reads_word32 h.maxAttempts).defaulted hattempts,
    (reads_word32 h.sequentialThreshold).defaulted hthreshold,
    (reads_word64 (h.maxConcurrency.trans hbound)).defaulted hconcurrency,
    (CallOptions.reads h.defaultAttempts).defaulted hdefaults]
  rfl

theorem Settings.reads (hbound : bound ≤ word64) (h : s.Sized bound) :
    Reads decode? s.encode s := by
  refine reads_record fun fs harrive => ?_
  obtain ⟨horacle, hchecker, hpipeline, -⟩ := by
    simpa only [List.forall_mem_cons] using harrive.written
  rw [decode?, fields?_arrive harrive, Option.bind_eq_bind, Option.bind_some,
    (OracleSettings.reads hbound h).defaulted horacle,
    (CheckerSettings.reads hbound h).defaulted hchecker,
    (PipelineSettings.reads hbound h).defaulted hpipeline]
  rfl

end Sized

open Toml

theorem ProviderSettings.usual (p : ProviderSettings) : Usual shape p.encode := by
  refine usual_record ?_
  simp [Shape.member, List.lookup, usual_any]

theorem OracleSettings.usual (o : OracleSettings) : Usual shape o.encode := by
  refine usual_record ?_
  have hproviders : Usual (.list ProviderSettings.shape)
      (.array (o.providers.map ProviderSettings.encode)) :=
    usual_list (List.forall_mem_map.2 fun p _ => p.usual)
  simp [Shape.member, List.lookup, usual_any, usual_string, hproviders]

theorem CheckerSettings.usual (c : CheckerSettings) : Usual shape c.encode := by
  refine usual_record ?_
  simp [Shape.member, List.lookup, usual_any, usual_string]

theorem CallOptions.usual (o : CallOptions) : Usual shape o.encode := by
  refine usual_record fun e he => ?_
  simp only [List.mem_append, Option.mem_toList, Option.map_eq_some_iff, or_assoc] at he
  rcases he with ⟨_, -, rfl⟩ | ⟨_, -, rfl⟩ | ⟨_, -, rfl⟩ | ⟨_, -, rfl⟩ | ⟨_, -, rfl⟩ | ⟨_, -, rfl⟩
  all_goals simp [Shape.member, List.lookup, usual_any, usual_string]

theorem PipelineSettings.usual (p : PipelineSettings) : Usual shape p.encode := by
  refine usual_record ?_
  simp [Shape.member, List.lookup, usual_any, p.defaults.usual]

theorem Settings.usual (s : Settings) : Usual shape s.encode := by
  refine usual_record ?_
  simp [Shape.member, List.lookup, s.oracle.usual, s.checker.usual, s.pipeline.usual]

namespace Settings

namespace Format

def bound : Format → Nat
  | .json => word64
  | .toml => 0x7FFFFFFFFFFFFFFF

def write? : Format → Value → Option String
  | .json, v => some (Json.pretty v)
  | .toml, v => Toml.write? v

def read? : Format → String → Option Value
  | .json => Json.parse?
  | .toml => Toml.parse?

/-- The text of a tree is read as a tree that says the same, if the format has room for its
numbers. -/
def Carries (format : Format) (v : Value) : Prop :=
  v.within format.bound = true → ∀ text, format.write? v = some text →
    ∃ v', format.read? text = some v' ∧ v.Carried v'

theorem carries_of_check {format : Format} {v : Value} {text : String}
    (hwrite : format.write? v = some text)
    (hread : (format.read? text).any (v.carries ·) = true) : format.Carries v := by
  intro _ text' htext'
  obtain rfl : text = text' := Option.some.inj (hwrite.symm.trans htext')
  obtain ⟨v', hv', hcarries⟩ := (Option.any_eq_true ..).1 hread
  exact ⟨v', hv', carried_of_carries hcarries⟩

theorem bound_le (format : Format) : format.bound ≤ word64 := by cases format <;> decide

theorem write?_within {format : Format} {v : Value} (h : v.within format.bound = true) :
    ∃ text, format.write? v = some text := by
  cases format with
  | json => exact ⟨_, rfl⟩
  | toml => exact ⟨_, if_pos (Toml.fits_of_within h)⟩

end Format

section Within

variable {bound : Nat}

theorem within_names (t : Table String) : (Manifest.encodeNames t).within bound = true :=
  within_object.2 (List.forall_mem_map.2 fun _ _ => within_string _)

theorem within_strings (items : List String) : (strings items).within bound = true :=
  within_array.2 (List.forall_mem_map.2 fun _ _ => within_string _)

theorem within_text (text : Option String) : (ofOption .string text).within bound = true :=
  within_ofOption fun _ _ => within_string _

theorem within_provider (p : ProviderSettings) : p.encode.within bound = true := by
  refine within_object.2 ?_
  simp [within_string, within_text, within_names]

theorem within_callOptions {o : CallOptions} (hfinite : ∀ x ∈ o.temperature, x.isFinite = true)
    (hattempts : ∀ n ∈ o.maxAttempts, n ≤ bound) : o.encode.within bound = true := by
  refine within_object.2 fun e he => ?_
  simp only [List.mem_append, Option.mem_toList, Option.map_eq_some_iff, or_assoc] at he
  rcases he with ⟨_, -, rfl⟩ | ⟨_, -, rfl⟩ | ⟨x, hx, rfl⟩ | ⟨n, hn, rfl⟩ | ⟨_, -, rfl⟩ | ⟨_, -, rfl⟩
  · exact within_string _
  · exact within_string _
  · exact hfinite x hx
  · exact within_nat (hattempts n hn)
  · exact within_string _
  · exact within_string _

theorem encode_within {s : Settings} (hbound : word32 ≤ bound) (h : s.Sized bound)
    (hfinite : ∀ x ∈ s.pipeline.defaults.temperature, x.isFinite = true) :
    s.encode.within bound = true := by
  have horacle : s.oracle.encode.within bound = true := by
    have hproviders : ∀ v ∈ s.oracle.providers.map ProviderSettings.encode,
        v.within bound = true := List.forall_mem_map.2 fun p _ => within_provider p
    refine within_object.2 ?_
    simp [within_string, within_array.2 hproviders, within_names, within_nat h.oracleTimeout,
      within_ofOption fun n hn => within_nat (h.providerTimeout n hn),
      within_nat (h.maxTokens.trans hbound), within_bool]
  have hchecker : s.checker.encode.within bound = true := by
    refine within_object.2 ?_
    simp [within_string, within_strings, within_text, within_nat h.checkerTimeout]
  have hpipeline : s.pipeline.encode.within bound = true := by
    have hdefaults := within_callOptions hfinite fun n hn => (h.defaultAttempts n hn).trans hbound
    refine within_object.2 ?_
    simp [within_nat (h.maxAttempts.trans hbound), within_nat (h.sequentialThreshold.trans hbound),
      within_nat h.maxConcurrency, hdefaults]
  refine within_object.2 ?_
  simp [horacle, hchecker, hpipeline]

end Within

/-- Valid settings whose numbers have a place in the format are read from the file as they were
written to it. -/
theorem ofFile_toFile {path : String} {files : Tree} {way : List String} {s : Settings}
    (hpath : path ≠ "") (hplace : Tree.place files [] (Tree.segments path) = .ok way)
    (hvalid : s.validate = .ok ()) (hsized : s.Sized (Format.ofPath path).bound)
    (hfinite : ∀ x ∈ s.pipeline.defaults.temperature, x.isFinite = true)
    (htext : (Format.ofPath path).Carries s.encode) :
    ∃ files', s.toFile path files = .ok files' ∧ ofFile path files' = .ok s := by
  have hwithin := encode_within (by cases Format.ofPath path <;> decide) hsized hfinite
  obtain ⟨text, hwrite⟩ := Format.write?_within hwithin
  obtain ⟨v', hread, hcarried⟩ := htext hwithin text hwrite
  have hsame := (Settings.reads (Format.bound_le _) hsized).same v' hcarried
  have hrender : render path s = .ok text := by
    rw [render]
    cases hformat : Format.ofPath path with
    | json =>
      rw [hformat] at hwrite
      exact congrArg Except.ok (Option.some.inj hwrite)
    | toml =>
      rw [hformat, Format.write?] at hwrite
      simp only [hwrite]
  -- A reader of TOML sees the usual spelling of what it reads, which this is already.
  have hparse : parse path text = .ok s := by
    rw [parse]
    cases hformat : Format.ofPath path with
    | json =>
      rw [hformat, Format.read?] at hread
      simp only [hread, Option.bind_some, hsame]
    | toml =>
      rw [hformat, Format.read?] at hread
      simp only [hread, Option.bind_some, s.usual v' hcarried, hsame]
  have hwritten : files.writeText path text
      = .ok (files.put way (.file (Text.toBytes text))) := by
    rw [Tree.writeText, Tree.write, if_neg hpath, hplace]
    rfl
  have hback : (files.put way (.file (Text.toBytes text))).readText path = .ok text := by
    rw [Tree.readText, (Tree.writeText_written (.refl files) hwritten).holds.read]
    simp only [bind, Except.bind, Text.ofBytes?_toBytes]
  refine ⟨files.put way (.file (Text.toBytes text)), ?_, ?_⟩
  · rw [toFile, hrender]
    simp only [bind, Except.bind, hwritten]
  · rw [ofFile, hback]
    simp only [bind, Except.bind, hparse, hvalid]

def hosted : Settings := {
  oracle := {
    providers := [{ name := "main", model := "m", headers := Table.ofList [("x-team", "a b")] }]
    providerTimeoutSecs := some 30 }
  checker := { mode := .remote, endpoint := some "https://check" }
  pipeline := { defaults := { direction := some .swiftToKotlin, maxAttempts := some 5 } } }

def hostedLines : List String := [
  "[oracle]\n", "mode = \"remote\"\n", "timeout_secs = 120\n", "provider_timeout_secs = 30\n",
  "max_tokens = 4096\n", "streaming = false\n", "\n",
  "[[oracle.providers]]\n", "name = \"main\"\n", "base_url = \"\"\n", "model = \"m\"\n", "\n",
  "[oracle.providers.headers]\n", "x-team = \"a b\"\n", "\n",
  "[oracle.model_hints]\n", "\n",
  "[compiler]\n", "mode = \"remote\"\n", "args = []\n", "endpoint = \"https://check\"\n",
  "timeout_secs = 60\n", "\n",
  "[pipeline]\n", "max_attempts = 3\n", "sequential_threshold = 2\n", "max_concurrency = 4\n", "\n",
  "[pipeline.defaults]\n", "direction = \"swift-to-kotlin\"\n", "maxAttempts = 5\n"]

theorem write?_hosted : Format.toml.write? hosted.encode = some (String.join hostedLines) := by
  decide +kernel

theorem read?_hosted :
    (Format.toml.read? (String.join hostedLines)).any (hosted.encode.carries ·) = true := by
  rw [Format.read?, Toml.parse?, String.toList_join]
  decide +kernel

def warm : Settings := { hosted with pipeline.defaults.temperature := some 0.5 }

def warmLines : List String := [
  "\x7b\n", "  \"oracle\": \x7b\n", "    \"mode\": \"remote\",\n", "    \"providers\": [\n",
  "      \x7b\n", "        \"name\": \"main\",\n", "        \"base_url\": \"\",\n",
  "        \"model\": \"m\",\n", "        \"api_key\": null,\n", "        \"api_key_env\": null,\n",
  "        \"headers\": \x7b\n", "          \"x-team\": \"a b\"\n", "        \x7d\n",
  "      \x7d\n", "    ],\n", "    \"model_hints\": \x7b\x7d,\n", "    \"timeout_secs\": 120,\n",
  "    \"provider_timeout_secs\": 30,\n", "    \"max_tokens\": 4096,\n",
  "    \"streaming\": false\n", "  \x7d,\n", "  \"compiler\": \x7b\n",
  "    \"mode\": \"remote\",\n", "    \"command\": null,\n", "    \"args\": [],\n",
  "    \"source_file_name\": null,\n", "    \"shadow_file_name\": null,\n",
  "    \"endpoint\": \"https://check\",\n", "    \"timeout_secs\": 60\n", "  \x7d,\n",
  "  \"pipeline\": \x7b\n", "    \"max_attempts\": 3,\n", "    \"sequential_threshold\": 2,\n",
  "    \"max_concurrency\": 4,\n", "    \"defaults\": \x7b\n",
  "      \"direction\": \"swift-to-kotlin\",\n", "      \"temperature\": 0.5,\n",
  "      \"maxAttempts\": 5\n", "    \x7d\n", "  \x7d\n", "\x7d"]

theorem write?_warm : Format.json.write? warm.encode = some (String.join warmLines) := by
  decide +kernel

theorem read?_warm :
    (Format.json.read? (String.join warmLines)).any (warm.encode.carries ·) = true := by
  rw [Format.read?, Json.parse?, String.toList_join]
  decide +kernel

theorem hosted_sized (format : Format) : hosted.Sized format.bound := by
  cases format <;> constructor <;> decide

theorem warm_sized (format : Format) : warm.Sized format.bound := { hosted_sized format with }

/-- Tables come after plain fields, and fields that are not set are missing or null, but the settings
are the same. -/
theorem hosted_same : (hosted.validate = .ok () ∧ hosted.pipeline.defaults.temperature = none ∧
      ∃ files, hosted.toFile "reforge.toml" .empty = .ok files ∧
        ofFile "reforge.toml" files = .ok hosted) ∧
    warm.validate = .ok () ∧ warm.pipeline.defaults.temperature = some 0.5 ∧
      ∃ files, warm.toFile "reforge.json" .empty = .ok files ∧
        ofFile "reforge.json" files = .ok warm := by
  have htoml : Format.ofPath "reforge.toml" = .toml := by decide +kernel
  have hjson : Format.ofPath "reforge.json" = .json := by decide +kernel
  have hplace : Tree.place .empty [] (Tree.segments "reforge.toml") = .ok ["reforge.toml"] := by
    decide +kernel
  have hplace' : Tree.place .empty [] (Tree.segments "reforge.json") = .ok ["reforge.json"] := by
    decide +kernel
  refine ⟨⟨rfl, rfl, ofFile_toFile (by decide) hplace rfl ?_ nofun ?_⟩,
    rfl, rfl, ofFile_toFile (by decide) hplace' rfl ?_ ?_ ?_⟩
  · exact hosted_sized _
  · exact htoml ▸ Format.carries_of_check write?_hosted read?_hosted
  · exact warm_sized _
  · rintro x ⟨⟩
    decide +kernel
  · exact hjson ▸ Format.carries_of_check write?_warm read?_warm

end Settings

end Crosswalk
