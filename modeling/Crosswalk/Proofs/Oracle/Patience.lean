import Mathlib
import Crosswalk.Batch.Setup
import Crosswalk.Proofs.Fault
import Crosswalk.Proofs.Oracle.Chat
import Crosswalk.Proofs.Oracle.Failover
import Crosswalk.Proofs.Work

namespace Crosswalk

variable {σ α : Type}

namespace Work

/-- From this world, work brings no answer within the time: it fails, at whatever moment, or it
takes longer, or it hangs. -/
def Silent (limit : Nat) (w : Work σ (Except OracleFault α)) (s : σ) : Prop :=
  (∃ fault, (w.ending? s).1 = some (.finished (.error fault))) ∨
    limit < w.elapsed s ∨ (w.ending? s).1 = none

theorem Silent.call {limit : Nat} {w : Work σ (Except OracleFault α)} {s : σ}
    (h : w.Silent limit s) (late : OracleFault) :
    ∃ fault, (w.call limit (.error late) s).1.ending = .finished (.error fault) := by
  by_cases ht : limit < w.elapsed s
  · exact ⟨late, call_late (.inr ht)⟩
  · obtain ⟨fault, hfault⟩ | hlong | hhangs := h
    · obtain ⟨s', hends⟩ : ∃ s', w.ending? s = (some (.finished (.error fault)), s') :=
        ⟨_, Prod.ext hfault rfl⟩
      obtain ⟨waits, hcall, -⟩ := call_in_time limit (.error late) hends (not_lt.1 ht)
      exact ⟨fault, by rw [hcall]⟩
    · exact absurd hlong ht
    · exact ⟨late, call_late (.inl hhangs)⟩

end Work

open Work

namespace Provider

variable {p : Provider σ} {limit : Nat}

theorem bounded_of_limit (h : p.limit = some limit) (w : Work σ (Except OracleFault α)) :
    p.bounded w = w.within limit (.error (.timeout (limit / 1000))) := by
  rw [bounded, h]

theorem bounded_silent (h : p.limit = some limit) {w : Work σ (Except OracleFault α)} {s : σ}
    (hw : w.Silent limit s) :
    ∃ fault s', (p.bounded w).ending? s = (some (.finished (.error fault)), s') := by
  obtain ⟨fault, hfault⟩ := hw.call (.timeout (limit / 1000))
  exact ⟨fault, _, by rw [bounded_of_limit h, ending?_within, hfault]⟩

theorem bounded_in_time (h : p.limit = some limit) {w : Work σ (Except OracleFault α)} {s s' : σ}
    {e : Ending (Except OracleFault α)} (hw : w.ending? s = (some e, s'))
    (ht : w.elapsed s ≤ limit) :
    (p.bounded w).ending? s = (some e, s') ∧ (p.bounded w).elapsed s = w.elapsed s := by
  obtain ⟨waits, hcall, hsum⟩ :=
    call_in_time limit (.error (.timeout (limit / 1000))) hw ht
  constructor
  · rw [bounded_of_limit h, ending?_within, hcall]
  · rw [bounded_of_limit h, elapsed_within, hcall, hsum]

theorem bounded_elapsed_le (h : p.limit = some limit) (w : Work σ (Except OracleFault α)) (s : σ) :
    (p.bounded w).elapsed s ≤ limit := by
  rw [bounded_of_limit h]
  exact elapsed_within_le ..

end Provider

/-- Providers that are asked one after the other and bring no answer within their limits, with the
world before the first one and the world that the last one leaves. -/
inductive PassedOver (request : Request) : List (Provider σ) → σ → σ → Prop
  | nil (s : σ) : PassedOver request [] s s
  | cons {p : Provider σ} {rest : List (Provider σ)} {limit : Nat} {s s' : σ}
      (hlimit : p.limit = some limit) (hsilent : (p.oracle.complete request).Silent limit s)
      (hrest : PassedOver request rest ((p.bounded (p.oracle.complete request)).ending? s).2 s') :
      PassedOver request (p :: rest) s s'

namespace Chain

section Steps

variable (ask : Provider σ → Work σ (Except OracleFault α)) (faults : List (String × OracleFault))
  (rest : List (Provider σ)) {p : Provider σ} {s s' : σ}

theorem firstAnswer_passes_elapsed {fault : OracleFault}
    (h : (p.bounded (ask p)).ending? s = (some (.finished (.error fault)), s')) :
    (firstAnswer ask faults (p :: rest)).elapsed s
      = (p.bounded (ask p)).elapsed s
        + (firstAnswer ask (faults ++ [(p.name, fault)]) rest).elapsed s' := by
  rw [firstAnswer, elapsed_bind, h]
  rfl

theorem firstAnswer_answers {a : α}
    (h : (p.bounded (ask p)).ending? s = (some (.finished (.ok a)), s')) :
    (firstAnswer ask faults (p :: rest)).ending? s = (some (.finished (.ok a)), s') ∧
      (firstAnswer ask faults (p :: rest)).elapsed s = (p.bounded (ask p)).elapsed s := by
  constructor
  · rw [firstAnswer, ending?_bind, h]
    rfl
  · rw [firstAnswer, elapsed_bind, h]
    rfl

end Steps

variable {request : Request}

/-- The chain gives the answer of the first provider that brings one within its limit. No provider
before it costs more than its limit. -/
theorem firstAnswer_in_time {before : List (Provider σ)} {p : Provider σ}
    (after : List (Provider σ)) {limit : Nat}
    (hlimits : ∀ q ∈ before ++ [p], q.limit = some limit) {s s₁ s₂ : σ}
    (hbefore : PassedOver request before s s₁) {reply : Reply}
    (hanswer : (p.oracle.complete request).ending? s₁ = (some (.finished (.ok reply)), s₂))
    (htime : (p.oracle.complete request).elapsed s₁ ≤ limit)
    (faults : List (String × OracleFault)) :
    (firstAnswer (·.oracle.complete request) faults (before ++ p :: after)).ending? s
        = (some (.finished (.ok reply)), s₂) ∧
      (firstAnswer (·.oracle.complete request) faults (before ++ p :: after)).elapsed s
        ≤ before.length * limit + (p.oracle.complete request).elapsed s₁ := by
  induction hbefore generalizing faults with
  | nil s =>
    obtain ⟨hends, helapsed⟩ :=
      Provider.bounded_in_time (hlimits p (by simp)) hanswer htime
    obtain ⟨hfirst, hfirstElapsed⟩ :=
      firstAnswer_answers (·.oracle.complete request) faults after hends
    refine ⟨hfirst, ?_⟩
    rw [List.nil_append, hfirstElapsed, helapsed]
    exact Nat.le_add_left ..
  | @cons q rest limit' s s' hlimit hsilent hrest ih =>
    obtain ⟨fault, t, hfails⟩ := Provider.bounded_silent hlimit hsilent
    rw [hfails] at ih
    obtain ⟨hends, helapsed⟩ := ih (fun r hr => hlimits r (List.mem_cons_of_mem _ hr)) hanswer
      htime (faults ++ [(q.name, fault)])
    have hcost := Provider.bounded_elapsed_le (hlimits q (by simp)) (q.oracle.complete request) s
    constructor
    · rw [List.cons_append,
        firstAnswer_passes (·.oracle.complete request) faults _ hfails]
      exact hends
    · rw [List.cons_append,
        firstAnswer_passes_elapsed (·.oracle.complete request) faults _ hfails]
      calc (q.bounded (q.oracle.complete request)).elapsed s
            + (firstAnswer (·.oracle.complete request) (faults ++ [(q.name, fault)])
              (rest ++ p :: after)).elapsed t
        _ ≤ limit + (rest.length * limit + (p.oracle.complete request).elapsed _) :=
          Nat.add_le_add hcost helapsed
        _ = (q :: rest).length * limit + (p.oracle.complete request).elapsed _ := by
          rw [List.length_cons]
          ring

end Chain

namespace Providers

theorem distinct_names (names : List String) (providers : List ProviderSettings) :
    ((distinct names providers).map (·.name)).Nodup ∧
      ∀ name, name ∈ (distinct names providers).map (·.name)
        ↔ name ∈ providers.map (·.name) ∧ name ∉ names := by
  induction providers generalizing names with
  | nil => simp [distinct]
  | cons p rest ih =>
    rw [distinct]
    split
    next hseen =>
      obtain ⟨hnodup, hmem⟩ := ih names
      refine ⟨hnodup, fun name => ?_⟩
      rw [List.contains_iff_mem] at hseen
      rw [hmem, List.map_cons, List.mem_cons]
      grind
    next hnew =>
      obtain ⟨hnodup, hmem⟩ := ih (p.name :: names)
      rw [List.contains_iff_mem] at hnew
      constructor
      · rw [List.map_cons, List.nodup_cons, hmem]
        exact ⟨fun h => h.2 List.mem_cons_self, hnodup⟩
      · intro name
        rw [List.map_cons, List.mem_cons, hmem, List.map_cons, List.mem_cons, List.mem_cons]
        grind

theorem length_distinct (providers : List ProviderSettings) :
    (distinct [] providers).length = (providers.map (·.name)).toFinset.card := by
  obtain ⟨hnodup, hmem⟩ := distinct_names [] providers
  rw [← List.length_map (·.name), ← List.toFinset_card_of_nodup hnodup]
  congr 1
  ext name
  simp only [List.mem_toFinset, hmem, List.not_mem_nil, not_false_eq_true, and_true]

theorem service_limit {env : Environment} {maxTokens limit : Nat} {p : ProviderSettings}
    {c : ChatService} (h : service env maxTokens limit p = .ok c) : c.limit = limit := by
  rw [service] at h
  split at h
  · cases h
  · cases h
    rfl

theorem ofSettings_ok {env : Environment} {s : OracleSettings} {services : List ChatService}
    (h : ofSettings env s = .ok services) :
    services.length = (s.providers.map (·.name)).toFinset.card ∧
      ∀ c ∈ services, c.limit = s.providerTimeout services.length := by
  obtain ⟨hlength, hmade⟩ := mapM_ok h
  refine ⟨hlength.trans (length_distinct _), fun c hc => ?_⟩
  obtain ⟨p, -, hp⟩ := hmade c hc
  rw [service_limit hp, hlength]

end Providers

theorem OracleSettings.providerTimeout_shared {o : OracleSettings}
    (hshared : o.providerTimeoutSecs = none) {n : Nat} (hn : 1 ≤ n) (hbudget : n ≤ o.timeoutSecs) :
    o.providerTimeout n = o.timeoutSecs / n := by
  have hshare : 1 ≤ o.timeoutSecs / n := Nat.div_pos hbudget hn
  rw [providerTimeout, hshared, Option.getD_none, max_eq_right hn, max_eq_right hshare]

theorem Providers.shares_fit {env : Environment} {o : OracleSettings}
    (hshared : o.providerTimeoutSecs = none)
    (hbudget : (o.providers.map (·.name)).toFinset.card ≤ o.timeoutSecs)
    {before after : List ChatService} {c : ChatService}
    (hservices : ofSettings env o = .ok (before ++ c :: after)) :
    (∀ c' ∈ before, c'.limit = c.limit) ∧ (before.length + 1) * c.limit ≤ o.timeoutSecs := by
  obtain ⟨hcount, hlimits⟩ := ofSettings_ok hservices
  have hlength : before.length + 1 ≤ (before ++ c :: after).length := by
    simp only [List.length_append, List.length_cons]
    omega
  rw [← hcount] at hbudget
  generalize (before ++ c :: after).length = n at hbudget hlimits hlength
  rw [o.providerTimeout_shared hshared (by omega) hbudget] at hlimits
  have hlimit : c.limit = o.timeoutSecs / n := hlimits c (by simp)
  constructor
  · intro c' hc'
    rw [hlimit, hlimits c' (List.mem_append_left _ hc')]
  · calc (before.length + 1) * c.limit
      _ ≤ n * c.limit := Nat.mul_le_mul_right _ hlength
      _ = n * (o.timeoutSecs / n) := by rw [hlimit]
      _ ≤ o.timeoutSecs := Nat.mul_div_le ..

namespace Engine

variable {around : Surroundings σ} {s : Settings} {e : Engine σ}

theorem ofSettings_services (hengine : ofSettings around s = .ok e)
    (hmode : s.oracle.mode = .remote) {services : List ChatService} (hsome : services ≠ [])
    (hservices : Providers.ofSettings around.env s.oracle = .ok services) :
    ∃ chain : Chain σ, e.client = .remote chain.oracle ∧ e.terms = s.terms ∧
      chain.providers = services.map (·.provider around.wire) := by
  obtain ⟨-, -, hengine⟩ := bind_eq_ok.1 hengine
  obtain ⟨client, hclient, hengine⟩ := bind_eq_ok.1 hengine
  obtain ⟨checker, -, hengine⟩ := bind_eq_ok.1 hengine
  have hproviders : s.oracle.providers.isEmpty = false := by
    rw [List.isEmpty_eq_false_iff]
    intro hnone
    rw [Providers.ofSettings, hnone] at hservices
    cases hservices
    exact hsome rfl
  obtain ⟨c, rest, rfl⟩ := List.exists_cons_of_ne_nil hsome
  have hchain : Chain.ofSettings around.wire around.env s.oracle
      = .ok ⟨c.provider around.wire, rest.map (·.provider around.wire)⟩ := by
    rw [Chain.ofSettings, hservices]
    rfl
  simp only [Client.ofSettings, hmode, hproviders, Bool.false_eq_true, if_false, hchain,
    Except.map] at hclient
  cases hclient
  cases hengine
  exact ⟨_, rfl, rfl, rfl⟩

/-- Where providers share the time of a call, an answer that comes within the share of its provider
is the answer of the call, though all providers before that one fail, take too long or hang. -/
theorem hung_providers_passed (hengine : ofSettings around s = .ok e)
    (hmode : s.oracle.mode = .remote) (hwhole : s.oracle.streaming = false)
    (hshared : s.oracle.providerTimeoutSecs = none)
    (hbudget : (s.oracle.providers.map (·.name)).toFinset.card ≤ s.oracle.timeoutSecs)
    {before after : List ChatService} {c : ChatService}
    (hservices : Providers.ofSettings around.env s.oracle = .ok (before ++ c :: after))
    {request : Request} {world world₁ world₂ : σ}
    (hbefore : PassedOver request (before.map (·.provider around.wire)) world world₁)
    {reply : Reply} (hanswer : ((c.oracle around.wire).complete request).ending? world₁
      = (some (.finished (.ok reply)), world₂))
    (htime : ((c.oracle around.wire).complete request).elapsed world₁ < 1000 * c.limit)
    (path : String) :
    ∃ waits, e.services.ask path request world
        = (⟨waits, .finished (.ok reply.content)⟩, world₂) ∧
      waits.sum < 1000 * s.oracle.timeoutSecs := by
  obtain ⟨hlimits, hshares⟩ := Providers.shares_fit hshared hbudget hservices
  obtain ⟨chain, hclient, hterms, hproviders⟩ :=
    ofSettings_services hengine hmode (by simp) hservices
  rw [List.map_append, List.map_cons] at hproviders
  have hsame : ∀ q ∈ before.map (·.provider around.wire) ++ [c.provider around.wire],
      q.limit = some (1000 * c.limit) := by
    intro q hq
    rcases List.mem_append.1 hq with hq | hq
    · obtain ⟨c', hc', rfl⟩ := List.mem_map.1 hq
      exact congrArg (fun limit => some (1000 * limit)) (hlimits c' hc')
    · rw [List.mem_singleton.1 hq]
      rfl
  obtain ⟨hends, helapsed⟩ := Chain.firstAnswer_in_time
    (after.map (·.provider around.wire)) hsame hbefore hanswer htime.le []
  have hasked : e.client.answer false request
      = (Chain.firstAnswer (·.oracle.complete request) [] chain.providers).bind contentOf := by
    rw [hclient]
    exact Client.answer_whole request chain.oracle
  rw [hproviders] at hasked
  -- The shares of this provider and those before it are no more than the time of the call.
  have htotal : (e.client.answer false request).elapsed world < 1000 * s.oracle.timeoutSecs := by
    rw [hasked, elapsed_bind, hends]
    calc _ ≤ (before.map (·.provider around.wire)).length * (1000 * c.limit)
            + ((c.oracle around.wire).complete request).elapsed world₁ := helapsed
      _ < before.length * (1000 * c.limit) + 1000 * c.limit := by
        rw [List.length_map]
        exact Nat.add_lt_add_left htime _
      _ = 1000 * ((before.length + 1) * c.limit) := by ring
      _ ≤ 1000 * s.oracle.timeoutSecs := Nat.mul_le_mul_left _ hshares
  have hanswered : (e.client.answer false request).ending? world
      = (some (.finished (.ok reply.content)), world₂) := by
    rw [hasked, ending?_bind, hends]
    rfl
  obtain ⟨waits, hcall, hsum⟩ := call_in_time (1000 * s.oracle.timeoutSecs)
    (.error (.timeout (1000 * s.oracle.timeoutSecs / 1000))) hanswered htotal.le
  refine ⟨waits, ?_, hsum.trans_lt htotal⟩
  simp only [services, hterms, Settings.terms, hwhole]
  exact hcall

def twoShares : Settings where
  oracle := {
    providers := [⟨"a", "http://a", "m", none, none, .empty⟩,
      ⟨"a", "http://c", "m", none, none, .empty⟩, ⟨"b", "http://b", "m", none, none, .empty⟩]
    timeoutSecs := 4 }
  checker := { mode := .disabled }

def completion : Http.Response where
  status := 200
  pieces := [Text.toBytes
    "\x7b\"choices\":[\x7b\"message\":\x7b\"role\":\"assistant\",\"content\":\"B\"\x7d\x7d]\x7d"]

/-- The server of the first provider hangs; the one of the second responds just within its share. -/
def oneHung : Surroundings Unit where
  wire post :=
    if post.address.server = "a:80" then .never else .wait 1999 (.done (some completion))
  machine := .bare

def hungService : ChatService := { name := "a", baseUrl := "http://a", model := "m", limit := 2 }

def slowService : ChatService := { name := "b", baseUrl := "http://b", model := "m", limit := 2 }

theorem hungService_post? (r : Request) : ∃ post, hungService.post? r = some post ∧
    post.address = ⟨false, "a:80", "/chat/completions"⟩ :=
  ChatService.exists_post? (by decide +kernel) (by decide +kernel) r

theorem slowService_post? (r : Request) : ∃ post, slowService.post? r = some post ∧
    post.address = ⟨false, "b:80", "/chat/completions"⟩ :=
  ChatService.exists_post? (by decide +kernel) (by decide +kernel) r

theorem completion_read : slowService.readReply completion = .ok ⟨"B", "m", "b"⟩ := by cbv

theorem slowService_answers :
    ((slowService.oracle oneHung.wire).complete ⟨[], {}⟩).ending? ()
        = (some (.finished (.ok ⟨"B", "m", "b"⟩)), ()) ∧
      ((slowService.oracle oneHung.wire).complete ⟨[], {}⟩).elapsed () = 1999 := by
  obtain ⟨post, hpost, haddress⟩ := slowService_post? ⟨[], {}⟩
  have hresponds : oneHung.wire post = .wait 1999 (.done (some completion)) :=
    if_neg (by rw [haddress]; decide)
  obtain ⟨hanswer, helapsed⟩ := ChatService.complete_answers (by decide) hpost rfl
    (congrArg (ending? · ()) hresponds) (by rw [hresponds]; decide)
  rw [completion_read] at hanswer
  rw [hresponds] at helapsed
  exact ⟨hanswer, helapsed⟩

theorem oneHung_passed : ∃ e waits, ofSettings oneHung twoShares = .ok e ∧
    e.services.ask "A.kt" ⟨[], {}⟩ () = (⟨waits, .finished (.ok "B")⟩, ()) ∧
    waits.sum < 1000 * 4 := by
  have hservices : Providers.ofSettings oneHung.env twoShares.oracle
      = .ok ([hungService] ++ slowService :: []) := rfl
  have hsilent : ((hungService.oracle oneHung.wire).complete ⟨[], {}⟩).Silent 2000 () := by
    obtain ⟨post, hpost, haddress⟩ := hungService_post? ⟨[], {}⟩
    have hhangs : oneHung.wire post = .never := if_pos (by rw [haddress])
    exact .inl ⟨_, ChatService.complete_hung (by decide) hpost (by rw [hhangs]; rfl)⟩
  obtain ⟨hanswer, helapsed⟩ := slowService_answers
  obtain ⟨waits, hask, hsum⟩ := hung_providers_passed rfl rfl rfl rfl (by decide) hservices
    (.cons rfl hsilent (.nil _)) hanswer (helapsed.trans_lt (by decide)) "A.kt"
  exact ⟨_, waits, rfl, hask, hsum⟩

end Engine

end Crosswalk
