import Mathlib
import Crosswalk.Oracle.Chat
import Crosswalk.Proofs.Work

namespace Crosswalk

open Work

variable {σ : Type}

def Http.Wire.carried : Option Http.Response → Work σ (Except OracleFault Http.Response)
  | some response => .done (.ok response)
  | none => .done (.error unanswered)

namespace ChatService

variable {c : ChatService} {wire : Http.Wire σ} {request : Request} {post : Http.Post} {s s' : σ}

def post? (c : ChatService) (request : Request) : Option Http.Post :=
  Http.Post.make? c.endpoint c.allHeaders (Json.compact (c.question false request))

/-- What a service makes of a post that was carried. -/
def accepted : Except OracleFault Http.Response → Work σ (Except OracleFault Http.Response)
  | .error fault => .done (.error fault)
  | .ok response => .done (if response.isSuccess then .ok response
    else .error (refusal response.status response.text))

def replied (c : ChatService) : Except OracleFault Http.Response → Work σ (Except OracleFault Reply)
  | .error fault => .done (.error fault)
  | .ok response => .done (c.readReply response)

theorem exists_post? {address : Http.Address}
    (haddress : Http.Address.parse? c.endpoint = some address)
    (hheaders : c.allHeaders.all (fun h => Http.Post.isName h.1 && Http.Post.isFieldText h.2))
    (request : Request) : ∃ post, c.post? request = some post ∧ post.address = address := by
  rw [post?, Http.Post.make?, haddress]
  exact ⟨_, if_pos hheaders, rfl⟩

theorem complete_of_post (hlimit : c.limit ≠ 0) (hpost : c.post? request = some post) :
    (c.oracle wire).complete request
      = ((((wire post).bind Http.Wire.carried).within (1000 * c.limit)
        (.error (.timeout c.limit))).bind accepted).bind c.replied := by
  rw [post?] at hpost
  simp only [oracle, send, Http.Wire.post, hpost, if_neg hlimit]
  rfl

theorem complete_hung (hlimit : c.limit ≠ 0) (hpost : c.post? request = some post)
    (hhangs : ((wire post).ending? s).1 = none) :
    (((c.oracle wire).complete request).ending? s).1
      = some (.finished (.error (.timeout c.limit))) := by
  have hlate : (((wire post).bind Http.Wire.carried).call (1000 * c.limit)
      (.error (.timeout c.limit)) s).1.ending = .finished (.error (.timeout c.limit)) := by
    refine call_late (.inl ?_)
    obtain ⟨s', hends⟩ : ∃ s', (wire post).ending? s = (none, s') := ⟨_, Prod.ext hhangs rfl⟩
    rw [ending?_bind, hends]
    rfl
  rw [complete_of_post hlimit hpost, ending?_bind, ending?_bind, ending?_within, hlate]
  rfl

theorem complete_answers (hlimit : c.limit ≠ 0) (hpost : c.post? request = some post)
    {response : Http.Response} (hsuccess : response.isSuccess = true)
    (hresponds : (wire post).ending? s = (some (.finished (some response)), s'))
    (htime : (wire post).elapsed s ≤ 1000 * c.limit) :
    ((c.oracle wire).complete request).ending? s
        = (some (.finished (c.readReply response)), s') ∧
      ((c.oracle wire).complete request).elapsed s = (wire post).elapsed s := by
  have helapsed : ((wire post).bind Http.Wire.carried).elapsed s = (wire post).elapsed s := by
    rw [elapsed_bind, hresponds]
    rfl
  have hends : ((wire post).bind Http.Wire.carried).ending? s
      = (some (.finished (.ok response)), s') := by
    rw [ending?_bind, hresponds]
    rfl
  obtain ⟨waits, hcall, hsum⟩ := call_in_time (1000 * c.limit) (.error (.timeout c.limit)) hends
    (helapsed.trans_le htime)
  rw [complete_of_post hlimit hpost]
  constructor
  · simp only [ending?_bind, ending?_within, hcall, endingAfter, accepted, hsuccess, if_true,
      replied, ending?]
  · simp only [elapsed_bind, elapsed_within, ending?_bind, ending?_within, hcall, endingAfter,
      elapsedAfter, accepted, hsuccess, if_true, replied, ending?, elapsed, hsum, helapsed,
      Nat.add_zero]

end ChatService

end Crosswalk
