import MailClient.Proofs.Sasl.Talk

/-! Of the selected candidates, a run begins with the first whose first message can be built, and
with no other. Those before it cost a token request at most. -/
namespace MailClient.Sasl

variable {σ ε : Type} {limit : Duration} {fault : Error → ε}

inductive Serves (limit : Duration) (candidate : Candidate) : Call ε → Prop where
  | start {token answer} : candidate.scheme.usesToken = true →
      Serves limit candidate
        (.start candidate.scheme (candidate.opening (some token)) answer)
  | respond {sent data reply answer} :
      Exchange.message candidate sent (some data) none = .ok (some reply) →
      Serves limit candidate (.respond reply answer)
  | cancel {answer} : Serves limit candidate (.cancel answer)
  | get {answer} : candidate.scheme.usesToken = true →
      Serves limit candidate (.get candidate.user limit answer)
  | invalidate : candidate.scheme.usesToken = true →
      Serves limit candidate (.invalidate candidate.user)

/-- Of the queue, `chosen` is the first that can open. Those before it are asked a token for at
most, then it begins, and all that follows is done for it. -/
def Opens (limit : Duration) (queue : List Candidate) (chosen : Candidate)
    (calls : List (Call ε)) : Prop :=
  ∃ before after skipped token prepared answer rest,
    queue = before ++ chosen :: after ∧ PassedOver limit before skipped ∧
    skipped.map Call.request? =
      (before.filter (·.scheme.usesToken)).map (fun candidate => some candidate.user) ∧
    chosen.fits = true ∧ Prepared limit chosen token prepared ∧
    calls = skipped ++ prepared ++ .start chosen.scheme (chosen.opening token) answer :: rest ∧
    ∀ call ∈ rest, Serves limit chosen call

/-- What answers a challenge that leaves the exchange open. -/
theorem message_of_answer {x x' : Exchange} {data : String} {reply : Option String}
    (hc : (x.challenge (.turn x.scheme data)).complete = false)
    (h : (x.challenge (.turn x.scheme data)).answer none = (.ok reply, x')) :
    Exchange.message x.candidate x.sent (some data) none = .ok (some (reply.getD "")) := by
  unfold Exchange.challenge at hc h
  split at h
  next hle => simp [hle] at hc
  next =>
    have built : Exchange.message x.candidate x.sent (some data) none = .ok reply :=
      (Prod.mk.inj h).1
    obtain ⟨m, rfl⟩ := Option.isSome_iff_exists.mp (Negotiation.isSome_of_message_eq_ok built)
    exact built

/-- After its first message an exchange makes calls for its own candidate only. -/
theorem Talk.serves {refreshed : Bool} {n n' : Negotiation} {x : Exchange}
    {message : ClientMessage} {calls : List (Call ε)} {r : Except ε Outcome}
    (h : Talk limit fault refreshed n x message calls r n') :
    ∃ answer rest, calls = message.call answer :: rest ∧
      ∀ call ∈ rest, Serves limit x.candidate call := by
  induction h with
  | lost | accepted | rejected => exact ⟨_, [], rfl, by simp⟩
  | denied hu =>
    refine ⟨_, _, rfl, ?_⟩
    simp only [List.forall_mem_cons]
    exact ⟨.invalidate hu, .get hu, by simp⟩
  | renewed hu _ ih =>
    obtain ⟨answer, rest, rfl, served⟩ := ih
    refine ⟨_, _, rfl, ?_⟩
    simp only [List.forall_mem_cons]
    exact ⟨.invalidate hu, .get hu, .start hu, served⟩
  | answered hc ha _ ih =>
    obtain ⟨answer, rest, rfl, served⟩ := ih
    rw [Exchange.candidate_of_answer ha] at served
    refine ⟨_, _, rfl, ?_⟩
    simp only [List.forall_mem_cons]
    exact ⟨.respond (message_of_answer hc ha), served⟩
  | abandoned => exact ⟨_, _, rfl, by simpa using .cancel⟩

theorem Opens.of_talk {before after : List Candidate} {chosen : Candidate}
    {token : Option String} {skipped prepared calls : List (Call ε)} {n n' : Negotiation}
    {r : Except ε Outcome} (passed : PassedOver limit before skipped)
    (fits : chosen.fits = true) (ready : Prepared limit chosen token prepared)
    (talk : Talk limit fault false n (chosen.opened token)
      (.start chosen.scheme (chosen.opening token)) calls r n') :
    Opens limit (before ++ chosen :: after) chosen (skipped ++ (prepared ++ calls)) := by
  obtain ⟨answer, rest, rfl, served⟩ := talk.serves
  exact ⟨before, after, skipped, token, prepared, answer, rest, rfl, passed, passed.requests, fits,
    ready, by simp [ClientMessage.call], served⟩

namespace Call

def scheme? : Call ε → Option Scheme
  | .start scheme _ _ => some scheme
  | _ => none

theorem scheme?_of_request? {call : Call ε} (h : call.request?.isSome = true) :
    call.scheme? = none := by
  obtain ⟨_, _, _, rfl⟩ := of_request? h
  rfl

end Call

theorem Serves.scheme_eq {candidate : Candidate} {call : Call ε} {scheme : Scheme}
    (h : Serves limit candidate call) (hs : call.scheme? = some scheme) :
    candidate.scheme = scheme := by
  cases h with
  | start => exact Option.some.inj hs
  | _ => cases hs

namespace Opens

variable {queue : List Candidate} {chosen : Candidate} {calls : List (Call ε)}

theorem mem (h : Opens limit queue chosen calls) : chosen ∈ queue := by
  obtain ⟨before, after, _, _, _, _, _, rfl, _⟩ := h
  simp

/-- Whatever scheme is started, it is that of the candidate. -/
theorem scheme_eq {call : Call ε} {scheme : Scheme} (h : Opens limit queue chosen calls)
    (hc : call ∈ calls) (hs : call.scheme? = some scheme) : chosen.scheme = scheme := by
  obtain ⟨before, after, skipped, token, prepared, answer, rest, -, passed, -, -, ready, rfl,
    served⟩ := h
  simp only [List.mem_append, List.mem_cons] at hc
  rcases hc with (hc | hc) | rfl | hc
  · rw [Call.scheme?_of_request? (passed.isSome_request? hc)] at hs
    cases hs
  · rw [Call.scheme?_of_request? (ready.isSome_request? hc)] at hs
    cases hs
  · exact Option.some.inj hs
  · exact (served call hc).scheme_eq hs

end Opens

namespace Strategy

variable {configured : List Candidate} {host : String} {offered : List Challenge}
  {candidate : Candidate}

theorem offered_of_inOrder (h : candidate ∈ inOrder configured host offered) :
    ∃ c ∈ offered, c.scheme = candidate.scheme := by
  simpa using (List.mem_filter.mp h).2

theorem offered_of_strongestFirst (h : candidate ∈ strongestFirst configured host offered) :
    ∃ c ∈ offered, c.scheme = candidate.scheme :=
  offered_of_inOrder (List.mem_mergeSort.mp h)

end Strategy

namespace Authenticator

variable {a : Authenticator σ} {transport : Transport σ ε} {offered : List Challenge} {s : σ}

theorem opens_or_passedOver (ho : offered ≠ []) :
    (∃ chosen, Opens a.limit (a.strategy a.host offered) chosen
      (a.calls transport offered .fresh s)) ∨
    PassedOver a.limit (a.strategy a.host offered) (a.calls transport offered .fresh s) ∧
      (a.run transport offered (.fresh, s)).1 = .error (unusable transport.ofAuth offered) ∧
      (a.run transport offered (.fresh, s)).2.1 = .failed := by
  have ran := ran a transport offered .fresh s
  generalize a.calls transport offered .fresh s = calls at ran ⊢
  generalize (a.run transport offered (.fresh, s)).1 = r at ran ⊢
  generalize (a.run transport offered (.fresh, s)).2.1 = n at ran ⊢
  cases ran with
  | unasked h => exact absurd h ho
  | closed _ hp => cases hp
  | exhausted _ passed => exact .inr ⟨passed, rfl, rfl⟩
  | begun _ split passed fits ready talk =>
    rw [split]
    exact .inl ⟨_, .of_talk passed fits ready talk⟩
  -- A negotiation that is fresh has no exchange to go on with.
  | spent ht | resumed ht | dropped ht => cases ht

/-- The strategies that select by what is offered begin nothing else. -/
theorem offered_of_started {configured : List Candidate} {call : Call ε} {scheme : Scheme}
    (ho : offered ≠ [])
    (hstrategy : a.strategy = .inOrder configured ∨ a.strategy = .strongestFirst configured)
    (hc : call ∈ a.calls transport offered .fresh s) (hs : call.scheme? = some scheme) :
    ∃ c ∈ offered, c.scheme = scheme := by
  rcases opens_or_passedOver ho with ⟨chosen, opened⟩ | ⟨passed, -⟩
  · rw [← opened.scheme_eq hc hs]
    have selected := opened.mem
    rcases hstrategy with h | h
    · rw [h] at selected
      exact Strategy.offered_of_inOrder selected
    · rw [h] at selected
      exact Strategy.offered_of_strongestFirst selected
  · rw [Call.scheme?_of_request? (passed.isSome_request? hc)] at hs
    cases hs

/-- A run begins with the first selected candidate that can open, and serves no other; if there is
none, the transport is left alone. -/
theorem fallback (a : Authenticator σ) (transport : Transport σ ε) {offered : List Challenge}
    (s : σ) (ho : offered ≠ []) :
    ((∃ chosen, Opens a.limit (a.strategy a.host offered) chosen
        (a.calls transport offered .fresh s)) ∨
      PassedOver a.limit (a.strategy a.host offered) (a.calls transport offered .fresh s) ∧
      (∀ call ∈ a.calls transport offered .fresh s, call.atTransport = false) ∧
      (a.run transport offered (.fresh, s)).1 =
        .error (transport.ofAuth (.noUsableOption (offeredNames offered))) ∧
      (a.run transport offered (.fresh, s)).2.1 = .failed) ∧
    ∀ configured, a.strategy = .inOrder configured ∨ a.strategy = .strongestFirst configured →
      ∀ call ∈ a.calls transport offered .fresh s, ∀ scheme, call.scheme? = some scheme →
        ∃ c ∈ offered, c.scheme = scheme := by
  constructor
  · rcases opens_or_passedOver ho with opened | ⟨passed, hr, hn⟩
    · exact .inl opened
    · refine .inr ⟨passed, ?_, hr, hn⟩
      intro call hc
      exact Call.atTransport_of_request? (passed.isSome_request? hc)
  · intro configured hstrategy call hc scheme hs
    exact offered_of_started ho hstrategy hc hs

def tokenThenPassword : Authenticator Unit where
  host := "mail.example.com"
  strategy := .inOrder [⟨.xoauth2, .token "user"⟩, ⟨.plain, .password "user" "pw"⟩]
  tokens := .constant (.error (.tokenUnavailable "user"))

def bothOffered : List Challenge := [.offer .plain, .offer .xoauth2]

/-- Without a token the password is tried, though the scheme with a token is offered. -/
theorem opens_without_token :
    bothOffered ≠ [] ∧
    Opens defaultTokenLimit [⟨.xoauth2, .token "user"⟩, ⟨.plain, .password "user" "pw"⟩]
      ⟨.plain, .password "user" "pw"⟩
      (tokenThenPassword.calls (.constant (.ok .success)) bothOffered .fresh ()) := by
  have offers : bothOffered ≠ [] := by decide
  let x : Exchange := ⟨⟨.plain, .password "user" "pw"⟩, 1, none, false⟩
  have begun : Negotiation.Engaged ⟨.challenged, some x, []⟩ x := ⟨rfl, .inl rfl, rfl⟩
  have called := calc
    tokenThenPassword.calls (.constant (.ok .success)) bothOffered .fresh ()
      = ((tokenThenPassword.recorded Error).converse (Transport.constant (.ok .success)).recorded
          bothOffered false (.start .plain (some (Payload.plain "user" "pw")))
          ⟨.challenged, some x, []⟩
          ((), [.get "user" defaultTokenLimit (.error (.tokenUnavailable "user"))])).2.2.2 := by
        rw [calls, run_select offers (by decide) rfl]
        rfl
    _ = [.get "user" defaultTokenLimit (.error (.tokenUnavailable "user")),
          .start .plain (some (Payload.plain "user" "pw")) (.ok .success)] := by
        rw [converse_engaged begun]
        rfl
  refine ⟨offers, ?_⟩
  rcases (tokenThenPassword.fallback (.constant (.ok .success)) () offers).1 with
    ⟨chosen, opened⟩ | ⟨-, still, -⟩
  · have begun : .start .plain (some (Payload.plain "user" "pw")) (.ok .success) ∈
        tokenThenPassword.calls (.constant (.ok .success)) bothOffered .fresh () := by
      simp [called]
    have scheme : chosen.scheme = .plain := opened.scheme_eq begun rfl
    have selected : chosen ∈ [⟨.xoauth2, .token "user"⟩, ⟨.plain, .password "user" "pw"⟩] :=
      opened.mem
    simp only [List.mem_cons, List.not_mem_nil, or_false] at selected
    rcases selected with rfl | rfl
    · cases scheme
    · exact opened
  · simp [called, Call.atTransport] at still

end Authenticator
end MailClient.Sasl
