import MailClient.Sasl.Authentication

/-! The calls that an authentication makes of its surroundings, in their order and with their
answers. They are found by a run over surroundings that record them. -/
namespace MailClient.Sasl

variable {σ ε : Type}

inductive Call (ε : Type) where
  | start (scheme : Scheme) (initial : Option String) (answer : Except ε ServerStep)
  | respond (data : String) (answer : Except ε ServerStep)
  | cancel (answer : Except ε Unit)
  | get (identity : String) (limit : Duration) (answer : Except Error String)
  | invalidate (identity : String)

namespace Call

def atTransport : Call ε → Bool
  | .start .. | .respond .. | .cancel _ => true
  | .get .. | .invalidate _ => false

@[simp] theorem atTransport_cancel (answer : Except ε Unit) :
    (cancel answer).atTransport = true := rfl

@[simp] theorem atTransport_get (identity : String) (limit : Duration)
    (answer : Except Error String) : (get identity limit answer : Call ε).atTransport = false := rfl

@[simp] theorem atTransport_invalidate (identity : String) :
    (invalidate identity : Call ε).atTransport = false := rfl

def step? : Call ε → Option (Except ε ServerStep)
  | .start _ _ r | .respond _ r => some r
  | _ => none

def request? : Call ε → Option String
  | .get identity _ _ => some identity
  | _ => none

theorem of_request? {call : Call ε} (h : call.request?.isSome = true) :
    ∃ identity limit answer, call = .get identity limit answer := by
  cases call with
  | get identity limit answer => exact ⟨identity, limit, answer, rfl⟩
  | _ => cases h

theorem atTransport_of_request? {call : Call ε} (h : call.request?.isSome = true) :
    call.atTransport = false := by
  obtain ⟨_, _, _, rfl⟩ := of_request? h
  rfl

end Call

def ClientMessage.call : ClientMessage → Except ε ServerStep → Call ε
  | .start scheme initial, r => .start scheme initial r
  | .answer data, r => .respond data r

@[simp] theorem ClientMessage.call_atTransport (message : ClientMessage)
    (r : Except ε ServerStep) : (message.call r).atTransport = true := by
  cases message <;> rfl

@[simp] theorem ClientMessage.call_step? (message : ClientMessage) (r : Except ε ServerStep) :
    (message.call r).step? = some r := by
  cases message <;> rfl

/-- An action that adds itself and its answer to the calls. -/
def recorded {φ α : Type} (call : Except φ α → Call ε) (m : Action σ φ α) :
    Action (σ × List (Call ε)) φ α := fun (s, log) =>
  let (r, s') := m s
  (r, s', log ++ [call r])

def Transport.recorded (transport : Transport σ ε) : Transport (σ × List (Call ε)) ε where
  start scheme initial := Sasl.recorded (.start scheme initial) (transport.start scheme initial)
  respond data := Sasl.recorded (.respond data) (transport.respond data)
  cancel := Sasl.recorded .cancel transport.cancel
  ofAuth := transport.ofAuth

@[simp] theorem Transport.recorded_ofAuth (transport : Transport σ ε) :
    transport.recorded.ofAuth = transport.ofAuth := rfl

def TokenProvider.recorded (tokens : TokenProvider σ) (ε : Type) :
    TokenProvider (σ × List (Call ε)) where
  get identity limit := Sasl.recorded (.get identity limit) (tokens.get identity limit)
  invalidate identity := fun (s, log) =>
    (tokens.invalidate identity s, log ++ [.invalidate identity])

def Transport.constant (step : Except Error ServerStep) : Transport Unit Error where
  start _ _ := fun s => (step, s)
  respond _ := fun s => (step, s)
  cancel := fun s => (.ok (), s)
  ofAuth := id

def TokenProvider.constant (answer : Except Error String) : TokenProvider Unit where
  get _ _ := fun s => (answer, s)
  invalidate _ := id

namespace Authenticator

def recorded (a : Authenticator σ) (ε : Type) : Authenticator (σ × List (Call ε)) where
  host := a.host
  strategy := a.strategy
  tokens := a.tokens.recorded ε
  limit := a.limit

def calls (a : Authenticator σ) (transport : Transport σ ε) (offered : List Challenge)
    (n : Negotiation) (s : σ) : List (Call ε) :=
  ((a.recorded ε).run transport.recorded offered (n, s, [])).2.2.2

end Authenticator

/-! ### Opening an exchange -/

namespace Candidate

def fits (candidate : Candidate) : Bool :=
  match candidate.scheme, candidate.credentials with
  | .plain, .password .. | .login, .password .. | .cramMd5, .password .. => true
  | .xoauth2, .token _ | .oauthBearer, .token _ => true
  | .external, _ => true
  | _, _ => false

def opening (candidate : Candidate) (token : Option String) : Option String :=
  match candidate.scheme, candidate.credentials, token with
  | .plain, .password user secret, _ => some (Payload.plain user secret)
  | .external, credentials, _ => some (Payload.external credentials.user)
  | .xoauth2, .token user, some t => some (Payload.xoauth2 user t)
  | .oauthBearer, .token user, some t => some (Payload.oauthBearer user t)
  | _, _, _ => none

def begins (candidate : Candidate) : Bool := candidate.fits && candidate.scheme.speaksFirst

theorem isSome_opening {candidate : Candidate} {token : Option String}
    (ht : candidate.scheme.usesToken = true → token.isSome = true) :
    (candidate.opening token).isSome = candidate.begins := by
  obtain ⟨scheme, credentials⟩ := candidate
  cases scheme with
  | xoauth2 | oauthBearer =>
    obtain ⟨t, rfl⟩ := Option.isSome_iff_exists.mp (ht rfl)
    cases credentials <;> rfl
  | plain | login | cramMd5 | external => cases credentials <;> rfl

def user (candidate : Candidate) : String := candidate.credentials.user

def opened (candidate : Candidate) (token : Option String) : Exchange :=
  ⟨candidate, if (candidate.opening token).isSome then 1 else 0, none, false⟩

@[simp] theorem opened_scheme (candidate : Candidate) (token : Option String) :
    (candidate.opened token).scheme = candidate.scheme := rfl

end Candidate

namespace Exchange

@[simp] theorem candidate_user (x : Exchange) : x.candidate.user = x.user := rfl

@[simp] theorem candidate_scheme (x : Exchange) : x.candidate.scheme = x.scheme := rfl

variable {candidate : Candidate} {token : Option String}

theorem message_of_fits (sent : UInt8) (hf : candidate.fits = true)
    (ht : candidate.scheme.usesToken = true → token.isSome = true) :
    message candidate sent none token = .ok (candidate.opening token) := by
  obtain ⟨scheme, credentials⟩ := candidate
  cases scheme <;> cases credentials <;> first | rfl | cases hf
  all_goals
    cases token with
    | none => cases ht rfl
    | some t => rfl

theorem message_of_unfit (sent : UInt8) (pending : Option String) (hf : candidate.fits = false) :
    message candidate sent pending token =
      .error (.unsupportedCredentials candidate.scheme candidate.credentials.kindName) := by
  obtain ⟨scheme, credentials⟩ := candidate
  cases scheme <;> cases credentials <;> first | rfl | cases hf

theorem answer_start (hf : candidate.fits = true)
    (ht : candidate.scheme.usesToken = true → token.isSome = true) :
    (start candidate).answer token = (.ok (candidate.opening token), candidate.opened token) := by
  have built := message_of_fits 0 hf ht
  cases ho : candidate.opening token with
  | none => simp [answer, start, built, ho, Candidate.opened]
  | some initial => simp [answer, start, built, ho, Candidate.opened]

/-- An exchange that answers can do with its credentials. -/
theorem fits_of_answer {x x' : Exchange} {r : Option String}
    (h : x.answer token = (.ok r, x')) : x'.candidate.fits = true := by
  unfold answer at h
  obtain ⟨built, rfl⟩ := Prod.mk.inj h
  show x.candidate.fits = true
  cases hf : x.candidate.fits with
  | true => rfl
  | false =>
    rw [message_of_unfit x.sent x.pending hf] at built
    cases built

/-! A challenge is put to the exchange while there is a turn left to answer it, and makes it
complete otherwise. -/

theorem candidate_challenge (x : Exchange) (c : Challenge) :
    (x.challenge c).candidate = x.candidate := by
  unfold challenge
  split <;> rfl

theorem scheme_challenge (x : Exchange) (c : Challenge) : (x.challenge c).scheme = x.scheme :=
  congrArg Candidate.scheme (candidate_challenge x c)

theorem sent_challenge (x : Exchange) (c : Challenge) : (x.challenge c).sent = x.sent := by
  unfold challenge
  split <;> rfl

theorem complete_challenge (x : Exchange) (c : Challenge) :
    (x.challenge c).complete = true ↔ x.complete = true ∨ x.scheme.turns ≤ x.sent.toNat := by
  unfold challenge
  split
  next spent => simp [spent]
  next left => simp [left]

theorem pending_challenge (x : Exchange) (c : Challenge) :
    (x.challenge c).pending.isSome = true ↔ x.sent.toNat < x.scheme.turns := by
  unfold challenge
  split
  next spent => simp [spent]
  next left => simpa using left

theorem candidate_of_answer {x x' : Exchange} {c : Challenge} {r : Except Error (Option String)}
    (h : (x.challenge c).answer token = (r, x')) : x'.candidate = x.candidate := by
  unfold answer at h
  cases h
  exact candidate_challenge x c

end Exchange

inductive Prepared (limit : Duration) (candidate : Candidate) :
    Option String → List (Call ε) → Prop where
  | plain : candidate.scheme.usesToken = false → Prepared limit candidate none []
  | granted (token) : candidate.scheme.usesToken = true →
      Prepared limit candidate (some token) [.get candidate.user limit (.ok token)]

inductive Barred (limit : Duration) (candidate : Candidate) : Error → List (Call ε) → Prop where
  | denied (e) : candidate.scheme.usesToken = true →
      Barred limit candidate e [.get candidate.user limit (.error e)]
  | unfit {token calls} : candidate.fits = false → Prepared limit candidate token calls →
      Barred limit candidate
        (.unsupportedCredentials candidate.scheme candidate.credentials.kindName) calls

/-- The calls for candidates that are tried one after the other, of which none can open. -/
inductive PassedOver (limit : Duration) : List Candidate → List (Call ε) → Prop where
  | nil : PassedOver limit [] []
  | cons {candidate rest e calls later} : Barred limit candidate e calls →
      PassedOver limit rest later → PassedOver limit (candidate :: rest) (calls ++ later)

theorem Prepared.isSome {limit : Duration} {candidate : Candidate} {token : Option String}
    {calls : List (Call ε)} (h : Prepared limit candidate token calls) :
    candidate.scheme.usesToken = true → token.isSome = true := by
  cases h with
  | plain hu => simp [hu]
  | granted => simp

/-- A token is asked for once, where the scheme uses one. -/
theorem Prepared.requests {limit : Duration} {candidate : Candidate} {token : Option String}
    {calls : List (Call ε)} (h : Prepared limit candidate token calls) :
    calls.map Call.request? =
      if candidate.scheme.usesToken then [some candidate.user] else [] := by
  cases h with
  | plain hu => simp [hu]
  | granted _ hu => simp [hu, Call.request?]

theorem Barred.requests {limit : Duration} {candidate : Candidate} {e : Error}
    {calls : List (Call ε)} (h : Barred limit candidate e calls) :
    calls.map Call.request? =
      if candidate.scheme.usesToken then [some candidate.user] else [] := by
  cases h with
  | denied _ hu => simp [hu, Call.request?]
  | unfit _ hp => exact hp.requests

/-- Of candidates that are passed over, those with a token scheme are asked for, in their order. -/
theorem PassedOver.requests {limit : Duration} {queue : List Candidate} {calls : List (Call ε)}
    (h : PassedOver limit queue calls) : calls.map Call.request? =
      (queue.filter (·.scheme.usesToken)).map fun candidate => some candidate.user := by
  induction h with
  | nil => rfl
  | @cons candidate rest e calls later hb _ ih =>
    rw [List.map_append, hb.requests, ih]
    cases hu : candidate.scheme.usesToken <;> simp [hu]

theorem Prepared.isSome_request? {limit : Duration} {candidate : Candidate}
    {token : Option String} {calls : List (Call ε)} {call : Call ε}
    (h : Prepared limit candidate token calls) (hc : call ∈ calls) :
    call.request?.isSome = true := by
  cases h with
  | plain => cases hc
  | granted =>
    obtain rfl := List.mem_singleton.mp hc
    rfl

theorem PassedOver.isSome_request? {limit : Duration} {queue : List Candidate}
    {calls : List (Call ε)} {call : Call ε} (h : PassedOver limit queue calls)
    (hc : call ∈ calls) : call.request?.isSome = true := by
  have asked := List.mem_map_of_mem (f := Call.request?) hc
  rw [h.requests] at asked
  obtain ⟨candidate, _, hi⟩ := List.mem_map.mp asked
  simp [← hi]

inductive Tried (limit : Duration) (candidate : Candidate) :
    List (Call ε) → Except Error (Option String × Exchange) → Prop where
  | opened {token calls} : candidate.fits = true → Prepared limit candidate token calls →
      Tried limit candidate calls (.ok (candidate.opening token, candidate.opened token))
  | barred {e calls} : Barred limit candidate e calls → Tried limit candidate calls (.error e)

theorem tried_of_prepared {limit : Duration} {candidate : Candidate} {token : Option String}
    {calls : List (Call ε)} (h : Prepared limit candidate token calls) :
    Tried limit candidate calls (match (Exchange.start candidate).answer token with
      | (.ok initial, x) => .ok (initial, x)
      | (.error e, _) => .error e) := by
  cases hf : candidate.fits with
  | true =>
    rw [Exchange.answer_start hf h.isSome]
    exact .opened hf h
  | false =>
    have unfit : ((Exchange.start candidate).answer token).1 = .error _ :=
      Exchange.message_of_unfit 0 none hf
    split
    next ha => simp [ha] at unfit
    next ha =>
      simp only [ha, Except.error.injEq] at unfit
      rw [unfit]
      exact .barred (.unfit hf h)

namespace Negotiation

/-- To record the calls changes nothing of what comes of them. -/
theorem openExchange_recorded (tokens : TokenProvider σ) (limit : Duration) (candidate : Candidate)
    (s : σ) (log : List (Call ε)) :
    ∃ calls, openExchange (tokens.recorded ε) limit candidate (s, log) =
        ((openExchange tokens limit candidate s).1, (openExchange tokens limit candidate s).2,
          log ++ calls) ∧
      Tried limit candidate calls (openExchange tokens limit candidate s).1 := by
  unfold openExchange
  dsimp only
  split
  next hu =>
    have asked : (tokens.recorded ε).get candidate.credentials.user limit (s, log) =
        ((tokens.get candidate.credentials.user limit s).1,
          (tokens.get candidate.credentials.user limit s).2,
          log ++ [.get candidate.user limit (tokens.get candidate.credentials.user limit s).1]) :=
      rfl
    rw [asked]
    rcases tokens.get candidate.credentials.user limit s with ⟨e | token, s'⟩
    · exact ⟨_, rfl, .barred (.denied e hu)⟩
    · exact ⟨_, rfl, tried_of_prepared (.granted token hu)⟩
  next hu =>
    exact ⟨[], by simp, tried_of_prepared (.plain (by simpa using hu))⟩

inductive Found (limit : Duration) :
    List Candidate → List (Call ε) → Option (Option String × Exchange × List Candidate) → Prop where
  | exhausted {queue calls} : PassedOver limit queue calls → Found limit queue calls none
  | found {before chosen rest skipped token prepared} : PassedOver limit before skipped →
      chosen.fits = true → Prepared limit chosen token prepared →
      Found limit (before ++ chosen :: rest) (skipped ++ prepared)
        (some (chosen.opening token, chosen.opened token, rest))

theorem Found.skip {limit : Duration} {candidate : Candidate} {rest : List Candidate} {e : Error}
    {calls later : List (Call ε)} {found : Option (Option String × Exchange × List Candidate)}
    (hb : Barred limit candidate e calls) (h : Found limit rest later found) :
    Found limit (candidate :: rest) (calls ++ later) found := by
  cases h with
  | exhausted hp => exact .exhausted (.cons hb hp)
  | found hp hf ht =>
    rw [← List.append_assoc]
    exact .found (.cons hb hp) hf ht

theorem openFirst_recorded (tokens : TokenProvider σ) (limit : Duration) (queue : List Candidate)
    (s : σ) (log : List (Call ε)) :
    ∃ calls, openFirst (tokens.recorded ε) limit queue (s, log) =
        ((openFirst tokens limit queue s).1, (openFirst tokens limit queue s).2, log ++ calls) ∧
      Found limit queue calls (openFirst tokens limit queue s).1 := by
  induction queue generalizing s log with
  | nil => exact ⟨[], by simp [openFirst], .exhausted .nil⟩
  | cons candidate rest ih =>
    obtain ⟨calls, hrecorded, tried⟩ := openExchange_recorded tokens limit candidate s log
    unfold openFirst
    rw [hrecorded]
    generalize openExchange tokens limit candidate s = p at tried ⊢
    obtain ⟨e | ⟨initial, x⟩, s'⟩ := p
    · cases tried with
      | barred hb =>
        obtain ⟨later, hlater, found⟩ := ih s' (log ++ calls)
        exact ⟨calls ++ later, by simpa using hlater, found.skip hb⟩
    · cases tried with
      | opened hf hp => exact ⟨calls, rfl, .found .nil hf hp⟩

end Negotiation

/-! ### Carrying on -/

namespace Negotiation

structure Engaged (n : Negotiation) (x : Exchange) : Prop where
  active : n.active = some x
  phase : n.phase = .challenged ∨ n.phase = .handshake
  fits : x.candidate.fits = true

variable {n : Negotiation} {x : Exchange} {host : String} {strategy : Strategy}

def proceed (n : Negotiation) (x : Exchange) : Negotiation :=
  { n with phase := .handshake, active := some x }

theorem Engaged.challenge_eq (h : n.Engaged x) (data : String) :
    n.challenge host [.turn x.scheme data] strategy =
      if (x.challenge (.turn x.scheme data)).complete then (.refused, .failed)
      else (.respond, n.proceed (x.challenge (.turn x.scheme data))) := by
  have found : ([Challenge.turn x.scheme data].find? fun c => c.scheme == x.scheme) =
      some (.turn x.scheme data) := by
    simp [Challenge.turn]
  unfold challenge
  rcases h.phase with hp | hp
  · simp only [List.isEmpty_cons, hp, h.active, found]
    rfl
  · simp only [List.isEmpty_cons, hp, h.active, found]
    rfl

theorem next_proceed (tokens : TokenProvider σ) (limit : Duration) (n : Negotiation) (x : Exchange)
    (s : σ) : next tokens limit (n.proceed x, s) =
      match x.answer none with
      | (.ok data, x') => (.ok (some (.answer (data.getD ""))), n.proceed x', s)
      | (.error e, _) => (.error e, .failed, s) := rfl

def renew (n : Negotiation) (x : Exchange) : Negotiation :=
  { n with phase := .challenged, active := some x }

theorem Engaged.refresh_eq (h : n.Engaged x) (hu : x.scheme.usesToken = true)
    (tokens : TokenProvider σ) (limit : Duration) (s : σ) : refresh tokens limit (n, s) =
      match openExchange tokens limit x.candidate s with
      | (.ok (initial, x'), s') => (.ok (.start x.scheme initial), n.renew x', s')
      | (.error e, s') => (.error e, .failed, s') := by
  have active : n.active.filter (·.scheme.usesToken) = some x := by simp [h.active, hu]
  unfold refresh
  dsimp only
  rw [active]
  rfl

end Negotiation

namespace Authenticator

open Negotiation (Engaged)

variable {n : Negotiation} {x : Exchange}

def stuck (scheme : Scheme) : Error := .rejected (scheme.name ++ " exchange did not converge")

/-- What a message leads to while an exchange is under way. -/
theorem converse_engaged (h : n.Engaged x) (a : Authenticator σ) (transport : Transport σ ε)
    (offered : List Challenge) (refreshed : Bool) (message : ClientMessage) (s : σ) :
    a.converse transport offered refreshed message n s =
      match send transport message s with
      | (.error e, s) => (.error e, n, s)
      | (.ok .success, s) => (.ok (.authenticated x.scheme), n.succeed, s)
      | (.ok (.rejected why), s) =>
        if refreshed = false ∧ x.scheme.usesToken = true then
          match Negotiation.openExchange a.tokens a.limit x.candidate
              (a.tokens.invalidate x.user s) with
          | (.ok (initial, x'), s) =>
            a.converse transport offered true (.start x.scheme initial) (n.renew x') s
          | (.error e, s) => (.error (transport.ofAuth e), .failed, s)
        else (.error (transport.ofAuth (.rejected why)), .failed, s)
      | (.ok (.challenge data), s) =>
        let x' := x.challenge (.turn x.scheme data)
        if x'.complete then
          let (r, s) := abandon transport (stuck x.scheme) s
          (r, .failed, s)
        else match x'.answer none with
          | (.ok reply, x'') =>
            a.converse transport offered refreshed (.answer (reply.getD "")) (n.proceed x'') s
          | (.error e, _) =>
            let (r, s) := abandon transport e s
            (r, .failed, s) := by
  rw [converse]
  rcases send transport message s with ⟨e | data | _ | why, s₁⟩
  · rfl
  · dsimp only
    split
    next hx => simp [h.active] at hx
    next x₁ hx =>
      obtain rfl : x = x₁ := Option.some.inj (h.active.symm.trans hx)
      cases hcomplete : (x.challenge (.turn x.scheme data)).complete with
      | true =>
        have refused : n.challenge a.host [.turn x.scheme data] a.strategy =
            (.refused, .failed) := by
          rw [h.challenge_eq, if_pos hcomplete]
        split
        next hc =>
          rw [refused] at hc
          cases hc
        next hc =>
          rw [refused] at hc
          cases hc
          rfl
      | false =>
        have advanced : n.challenge a.host [.turn x.scheme data] a.strategy =
            (.respond, n.proceed (x.challenge (.turn x.scheme data))) := by
          rw [h.challenge_eq, if_neg (by simp [hcomplete])]
        split
        next n₁ hc =>
          rw [advanced] at hc
          cases hc
          have answered := Negotiation.next_proceed a.tokens a.limit n
            (x.challenge (.turn x.scheme data)) s₁
          generalize (x.challenge (.turn x.scheme data)).answer none = p at answered ⊢
          obtain ⟨e | reply, x''⟩ := p
          · dsimp only at answered
            split
            next hn => simp [answered] at hn
            next hn => simp [answered] at hn
            next hn =>
              rw [answered] at hn
              cases hn
              rfl
          · dsimp only at answered
            split
            next hn =>
              rw [answered] at hn
              cases hn
              rfl
            next hn => simp [answered] at hn
            next hn => simp [answered] at hn
        next verdict n₁ hv hc =>
          rw [advanced] at hc
          cases hc
          exact absurd rfl hv
  · simp [h.active]
  · cases hu : x.scheme.usesToken with
    | true =>
      have active : n.active.filter (·.scheme.usesToken) = some x := by simp [h.active, hu]
      simp only [active, and_true]
      cases refreshed with
      | true => rfl
      | false =>
        simp only [h.refresh_eq hu, if_true]
        rcases Negotiation.openExchange a.tokens a.limit x.candidate (a.tokens.invalidate x.user s₁)
          with ⟨e | ⟨initial, x'⟩, s₂⟩
        · rfl
        · rfl
    | false =>
      have idle : n.active.filter (·.scheme.usesToken) = none := by simp [h.active, hu]
      simp only [idle]
      cases refreshed <;> rfl

end Authenticator
end MailClient.Sasl
