import Mathlib.Data.List.Forall2
import MailClient.Proofs.Sasl.Closing
import MailClient.Sasl.Token

/-! Authentication against a server that has a list of steps to say, and protocols that carry it.
Where each call of such a run is made by a protocol as the script has it, the run over the protocol
is the same run. -/
namespace MailClient.Sasl

inductive Fault where
  /-- The script is too short. -/
  | exhausted
  | auth (e : Error)

namespace Script

variable {τ : Type}

def say : Action (List ServerStep × τ) Fault ServerStep
  | ([], t) => (.error .exhausted, [], t)
  | (step :: steps, t) => (.ok step, steps, t)

/-- A server that answers each message with the next of its steps. -/
def transport : Transport (List ServerStep × τ) Fault where
  start _ _ := say
  respond _ := say
  cancel := fun s => (.ok (), s)
  ofAuth := .auth

def tokenProvider (service : TokenService τ) : TokenProvider (List ServerStep × τ) where
  get identity limit := fun (steps, t) =>
    let (r, t') := service.timeless.get identity limit t
    (r, steps, t')
  invalidate identity := fun (steps, t) => (steps, service.invalidate identity t)

end Script

/-! ### Calls -/

def ServerStep.worded (code : String) : ServerStep → ServerStep
  | .rejected why => .rejected (code ++ why)
  | step => step

def ServerStep.isChallenge : ServerStep → Bool
  | .challenge _ => true
  | .success | .rejected _ => false

def ClientMessage.isAnswer : ClientMessage → Bool
  | .start .. => false
  | .answer _ => true

variable {σ ε : Type}

inductive Call.Carried (code : String) : Call Fault → Call ε → Prop where
  | start (scheme initial) (step : ServerStep) : Call.Carried code
      (.start scheme initial (.ok step)) (.start scheme initial (.ok (step.worded code)))
  | respond (data) (step : ServerStep) : Call.Carried code
      (.respond data (.ok step)) (.respond data (.ok (step.worded code)))
  | cancel : Call.Carried code (.cancel (.ok ())) (.cancel (.ok ()))
  | get (identity limit answer) : Call.Carried code
      (.get identity limit answer) (.get identity limit answer)
  | invalidate (identity) : Call.Carried code (.invalidate identity) (.invalidate identity)

inductive Agree (code : String) (fault : Error → ε) :
    Except Fault Outcome → Except ε Outcome → Prop where
  | ok (outcome) : Agree code fault (.ok outcome) (.ok outcome)
  | failed (e) : Agree code fault (.error (.auth e)) (.error (fault e))
  | rejected (why) : Agree code fault (.error (.auth (.rejected why)))
      (.error (fault (.rejected (code ++ why))))

def Call.Played : Call Fault → Prop
  | .start _ _ (.error e) | .respond _ (.error e) => e = .exhausted
  | .cancel answer => answer = .ok ()
  | _ => True

theorem Call.played_of_made {τ : Type} {service : TokenService τ} {call : Call Fault}
    {s s' : List ServerStep × τ}
    (h : call.Made Script.transport (Script.tokenProvider service) s s') : call.Played := by
  obtain ⟨steps, t⟩ := s
  cases call with
  | start scheme initial answer =>
    cases steps with
    | nil =>
      cases h
      rfl
    | cons step steps =>
      cases h
      exact trivial
  | respond data answer =>
    cases steps with
    | nil =>
      cases h
      rfl
    | cons step steps =>
      cases h
      exact trivial
  | cancel answer =>
    cases h
    rfl
  | get | invalidate => exact trivial

theorem played_of_path {τ : Type} {service : TokenService τ} {calls : List (Call Fault)}
    {s s' : List ServerStep × τ}
    (h : Path Script.transport (Script.tokenProvider service) s calls s') :
    ∀ call ∈ calls, call.Played := by
  induction h with
  | nil => simp
  | cons made _ ih => exact List.forall_mem_cons.mpr ⟨Call.played_of_made made, ih⟩

/-! ### Protocols -/

/-- From a state that is ready for the calls to come, a protocol makes each as the script has it.
Exchanges are open after challenges, and must not be where a scheme begins. -/
structure Transport.Carries (transport : Transport σ ε) (tokens : TokenProvider σ) (code : String)
    (ready : (isOpen : Bool) → List (Call Fault) → σ → Prop) : Prop where
  start {scheme initial step calls s} : ready false (.start scheme initial (.ok step) :: calls) s →
    ∃ s', transport.start scheme initial s = (.ok (step.worded code), s') ∧
      ready step.isChallenge calls s'
  respond {data step calls s} : ready true (.respond data (.ok step) :: calls) s →
    ∃ s', transport.respond data s = (.ok (step.worded code), s') ∧
      ready step.isChallenge calls s'
  cancel {calls s} : ready true (.cancel (.ok ()) :: calls) s →
    ∃ s', transport.cancel s = (.ok (), s') ∧ ready false calls s'
  get {isOpen identity limit answer calls s} :
    ready isOpen (.get identity limit answer :: calls) s →
    ∃ s', tokens.get identity limit s = (answer, s') ∧ ready isOpen calls s'
  invalidate {isOpen identity calls s} : ready isOpen (.invalidate identity :: calls) s →
    ready isOpen calls (tokens.invalidate identity s)

namespace Transport.Carries

variable {transport : Transport σ ε} {tokens : TokenProvider σ} {code : String}
  {ready : Bool → List (Call Fault) → σ → Prop} {limit : Duration} {calls later : List (Call Fault)}
  {candidate : Candidate} {s : σ} {isOpen : Bool}

/-- To record the calls changes nothing of how they are made. -/
theorem recorded (h : transport.Carries tokens code ready) (all : List (Call Fault)) :
    transport.recorded.Carries (tokens.recorded ε) code fun isOpen calls (s, log) =>
      ready isOpen calls s ∧
        ∃ before, before ++ calls = all ∧ List.Forall₂ (Call.Carried code) before log where
  start := by
    rintro scheme initial step calls ⟨s, log⟩ ⟨hr, before, rfl, carried⟩
    obtain ⟨s', hs, next⟩ := h.start hr
    refine ⟨(s', log ++ [.start scheme initial (.ok (step.worded code))]), ?_, next,
      before ++ [.start scheme initial (.ok step)], by simp, ?_⟩
    · simp only [Transport.recorded, Sasl.recorded, hs]
    · exact List.rel_append carried (.cons (.start scheme initial step) .nil)
  respond := by
    rintro data step calls ⟨s, log⟩ ⟨hr, before, rfl, carried⟩
    obtain ⟨s', hs, next⟩ := h.respond hr
    refine ⟨(s', log ++ [.respond data (.ok (step.worded code))]), ?_, next,
      before ++ [.respond data (.ok step)], by simp, ?_⟩
    · simp only [Transport.recorded, Sasl.recorded, hs]
    · exact List.rel_append carried (.cons (.respond data step) .nil)
  cancel := by
    rintro calls ⟨s, log⟩ ⟨hr, before, rfl, carried⟩
    obtain ⟨s', hs, next⟩ := h.cancel hr
    refine ⟨(s', log ++ [.cancel (.ok ())]), ?_, next, before ++ [.cancel (.ok ())], by simp, ?_⟩
    · simp only [Transport.recorded, Sasl.recorded, hs]
    · exact List.rel_append carried (.cons .cancel .nil)
  get := by
    rintro isOpen identity limit answer calls ⟨s, log⟩ ⟨hr, before, rfl, carried⟩
    obtain ⟨s', hs, next⟩ := h.get hr
    refine ⟨(s', log ++ [.get identity limit answer]), ?_, next,
      before ++ [.get identity limit answer], by simp, ?_⟩
    · simp only [TokenProvider.recorded, Sasl.recorded, hs]
    · exact List.rel_append carried (.cons (.get identity limit answer) .nil)
  invalidate := by
    rintro isOpen identity calls ⟨s, log⟩ ⟨hr, before, rfl, carried⟩
    exact ⟨h.invalidate hr, before ++ [.invalidate identity], by simp,
      List.rel_append carried (.cons (.invalidate identity) .nil)⟩

theorem send (h : transport.Carries tokens code ready) {message : ClientMessage}
    {step : ServerStep} (hr : ready message.isAnswer (message.call (.ok step) :: calls) s) :
    ∃ s', Authenticator.send transport message s = (.ok (step.worded code), s') ∧
      ready step.isChallenge calls s' := by
  cases message with
  | start scheme initial => exact h.start hr
  | answer data => exact h.respond hr

/-! ### Opening an exchange -/

theorem prepared {token : Option String} (h : transport.Carries tokens code ready)
    (later : List (Call Fault))
    (hp : Prepared limit candidate token calls) (hf : candidate.fits = true)
    (hr : ready isOpen (calls ++ later) s) :
    ∃ s', Negotiation.openExchange tokens limit candidate s =
        (.ok (candidate.opening token, candidate.opened token), s') ∧ ready isOpen later s' := by
  have answer := Exchange.answer_start hf hp.isSome
  unfold Negotiation.openExchange
  cases hp with
  | plain hu =>
    rw [hu]
    refine ⟨s, ?_, hr⟩
    simp [answer]
  | granted token hu =>
    obtain ⟨s', asked, next⟩ := h.get hr
    rw [show tokens.get candidate.credentials.user limit s = _ from asked, hu]
    refine ⟨s', ?_, next⟩
    simp [answer]

theorem barred {e : Error} (h : transport.Carries tokens code ready) (later : List (Call Fault))
    (hb : Barred limit candidate e calls) (hr : ready isOpen (calls ++ later) s) :
    ∃ s', Negotiation.openExchange tokens limit candidate s = (.error e, s') ∧
      ready isOpen later s' := by
  unfold Negotiation.openExchange
  cases hb with
  | denied e hu =>
    obtain ⟨s', asked, next⟩ := h.get hr
    rw [show tokens.get candidate.credentials.user limit s = _ from asked, hu]
    exact ⟨s', rfl, next⟩
  | unfit hf hp =>
    have unfit (token : Option String) : ∃ x, (Exchange.start candidate).answer token =
        (.error (.unsupportedCredentials candidate.scheme candidate.credentials.kindName), x) :=
      ⟨_, Prod.ext (Exchange.message_of_unfit 0 none hf) rfl⟩
    cases hp with
    | plain hu =>
      obtain ⟨x, failed⟩ := unfit none
      rw [hu]
      refine ⟨s, ?_, hr⟩
      simp [failed]
    | granted token hu =>
      obtain ⟨s', asked, next⟩ := h.get hr
      obtain ⟨x, failed⟩ := unfit (some token)
      rw [show tokens.get candidate.credentials.user limit s = _ from asked, hu]
      refine ⟨s', ?_, next⟩
      simp [failed]

theorem passedOver {before : List Candidate} (h : transport.Carries tokens code ready)
    (rest : List Candidate) (hp : PassedOver limit before calls)
    (hr : ready isOpen (calls ++ later) s) :
    ∃ s', Negotiation.openFirst tokens limit (before ++ rest) s =
        Negotiation.openFirst tokens limit rest s' ∧ ready isOpen later s' := by
  induction hp generalizing s with
  | nil => exact ⟨s, rfl, hr⟩
  | @cons candidate queue e first more hb _ ih =>
    rw [List.append_assoc] at hr
    obtain ⟨s₁, failed, next⟩ := h.barred _ hb hr
    obtain ⟨s', same, last⟩ := ih next
    refine ⟨s', ?_, last⟩
    rw [List.cons_append, Negotiation.openFirst, failed]
    exact same

/-! ### Exchanges -/

open Negotiation (Engaged)

theorem converse {refreshed : Bool} {n n' : Negotiation} {x : Exchange} {message : ClientMessage}
    {r : Except Fault Outcome} (a : Authenticator σ) (h : transport.Carries a.tokens code ready)
    (offered : List Challenge) (engaged : Engaged n x)
    (talk : Talk a.limit Fault.auth refreshed n x message calls r n')
    (played : ∀ call ∈ calls, call.Played) (finished : r ≠ .error .exhausted)
    (hr : ready message.isAnswer calls s) :
    ∃ isOpen r' s', a.converse transport offered refreshed message n s = (r', n', s') ∧
      Agree code transport.ofAuth r r' ∧ ready isOpen [] s' := by
  induction talk generalizing s with
  | @lost refreshed n x message e =>
    have exhausted : e = .exhausted := by
      have first := played _ (List.mem_singleton.mpr rfl)
      cases message <;> exact first
    rw [exhausted] at finished
    exact absurd rfl finished
  | @accepted refreshed n x message =>
    obtain ⟨s₁, sent, next⟩ := h.send hr
    rw [Authenticator.converse_engaged engaged, sent]
    exact ⟨_, _, s₁, rfl, .ok _, next⟩
  | @rejected refreshed n x message why last =>
    obtain ⟨s₁, sent, next⟩ := h.send hr
    rw [Authenticator.converse_engaged engaged, sent]
    have lasting : ¬(refreshed = false ∧ x.scheme.usesToken = true) := by
      rintro ⟨hr, hu⟩
      simp [hr, hu] at last
    exact ⟨_, _, s₁, if_neg lasting, .rejected why, next⟩
  | @denied n x message why e hu =>
    obtain ⟨s₁, sent, next⟩ := h.send hr
    obtain ⟨s₂, failed, last⟩ := h.barred [] (.denied e hu) (h.invalidate next)
    rw [Authenticator.converse_engaged engaged, sent]
    dsimp only [ServerStep.worded]
    rw [if_pos ⟨rfl, hu⟩, show Negotiation.openExchange a.tokens a.limit x.candidate _ = _ from
      failed]
    exact ⟨_, _, s₂, rfl, .failed e, last⟩
  | @renewed n x message why token calls r n' hu talk ih =>
    obtain ⟨s₁, sent, next⟩ := h.send hr
    obtain ⟨s₂, opened, last⟩ :=
      h.prepared calls (.granted token hu) engaged.fits (h.invalidate next)
    rw [Authenticator.converse_engaged engaged, sent]
    dsimp only [ServerStep.worded]
    rw [if_pos ⟨rfl, hu⟩, show Negotiation.openExchange a.tokens a.limit x.candidate _ = _ from
      opened]
    exact ih (Authenticator.engaged_renew engaged.fits)
      (fun call hc => played call (by simp [hc])) finished last
  | @answered refreshed n x message data reply x' calls r n' hc ha talk ih =>
    obtain ⟨s₁, sent, next⟩ := h.send hr
    rw [Authenticator.converse_engaged engaged, sent]
    dsimp only [ServerStep.worded]
    rw [if_neg (by simp [hc]), ha]
    exact ih (Authenticator.engaged_proceed (Exchange.fits_of_answer ha))
      (fun call hm => played call (List.mem_cons_of_mem _ hm)) finished next
  | @abandoned refreshed n x message data why answer unanswered =>
    obtain ⟨s₁, sent, next⟩ := h.send hr
    have answered : answer = .ok () := played (.cancel answer) (by simp)
    subst answered
    obtain ⟨s₂, cancelled, last⟩ := h.cancel next
    rw [Authenticator.converse_engaged engaged, sent]
    dsimp only [ServerStep.worded]
    refine ⟨_, _, s₂, ?_, .failed why, last⟩
    cases unanswered with
    | complete hc =>
      rw [if_pos hc, Authenticator.abandon_eq, cancelled]
      rfl
    | failed hc ha =>
      rw [if_neg (by simp [hc])]
      generalize (x.challenge (.turn x.scheme data)).answer none = p at ha
      obtain ⟨result, x'⟩ := p
      subst ha
      dsimp only
      rw [Authenticator.abandon_eq, cancelled]
      rfl

/-! ### Whole runs -/

variable {τ : Type}

theorem run (h : transport.Carries tokens code ready) (host : String) (strategy : Strategy)
    (service : TokenService τ) (limit : Duration) (offered : List Challenge)
    (script : List ServerStep × τ) :
    let a : Authenticator (List ServerStep × τ) :=
      ⟨host, strategy, Script.tokenProvider service, limit⟩
    let b : Authenticator σ := ⟨host, strategy, tokens, limit⟩
    let played := a.run Script.transport offered (.fresh, script)
    played.1 ≠ .error .exhausted →
    ready false (a.calls Script.transport offered .fresh script) s →
    ∃ isOpen r' s', b.run transport offered (.fresh, s) = (r', played.2.1, s') ∧
      Agree code transport.ofAuth played.1 r' ∧ ready isOpen [] s' := by
  intro a b played finished hr
  by_cases ho : offered = []
  · subst ho
    exact ⟨false, _, s, rfl, .ok _, hr⟩
  have path := played_of_path (a.path_run Script.transport offered script)
  have ran := a.ran Script.transport offered .fresh script
  change Authenticator.Ran a Fault.auth offered .fresh _ played.1 played.2.1 at ran
  generalize a.calls Script.transport offered .fresh script = calls at path ran hr
  generalize played.1 = r at ran finished ⊢
  generalize played.2.1 = n' at ran ⊢
  have phase : Negotiation.fresh.phase ≠ .failure := by decide
  cases ran with
  | unasked none => exact absurd none ho
  | closed _ failed => exact absurd failed phase
  | spent turn | resumed turn | dropped turn => simp [Negotiation.turn?, Negotiation.fresh] at turn
  | exhausted turn passed =>
    rw [← List.append_nil calls] at hr
    obtain ⟨s', same, last⟩ := h.passedOver [] passed hr
    rw [List.append_nil] at same
    rw [Authenticator.run_select ho phase turn, show Negotiation.openFirst b.tokens b.limit
      (b.strategy b.host offered) s = _ from same]
    exact ⟨false, _, s', rfl, .failed _, last⟩
  | @begun before chosen rest skipped token prepared calls r n' turn split passed fits ready talk =>
    obtain ⟨s₁, same, next⟩ := h.passedOver (chosen :: rest) passed hr
    obtain ⟨s₂, opened, last⟩ := h.prepared calls ready fits next
    have first : Negotiation.openFirst b.tokens b.limit (b.strategy b.host offered) s =
        (some (chosen.opening token, chosen.opened token, rest), s₂) := by
      rw [show b.strategy b.host offered = _ from split, show Negotiation.openFirst b.tokens
        b.limit (before ++ chosen :: rest) s = _ from same, Negotiation.openFirst, opened]
    rw [Authenticator.run_select ho phase turn, first]
    exact h.converse b offered ⟨rfl, .inl rfl, fits⟩ talk
      (fun call hc => path call (by simp [hc])) finished last

/-- Over a protocol that carries it, a run against a script makes the same calls with the same
result, and leaves the negotiation in the same state. -/
theorem same (h : transport.Carries tokens code ready) (host : String) (strategy : Strategy)
    (service : TokenService τ) (limit : Duration) (offered : List Challenge)
    (script : List ServerStep × τ) :
    let a : Authenticator (List ServerStep × τ) :=
      ⟨host, strategy, Script.tokenProvider service, limit⟩
    let b : Authenticator σ := ⟨host, strategy, tokens, limit⟩
    let played := a.run Script.transport offered (.fresh, script)
    let carried := b.run transport offered (.fresh, s)
    let calls := a.calls Script.transport offered .fresh script
    played.1 ≠ .error .exhausted → ready false calls s →
    List.Forall₂ (Call.Carried code) calls (b.calls transport offered .fresh s) ∧
      Agree code transport.ofAuth played.1 carried.1 ∧ carried.2.1 = played.2.1 ∧
      ∃ isOpen, ready isOpen [] carried.2.2 := by
  intro a b played carried calls finished hr
  obtain ⟨made, recorded, -⟩ := b.ran_recorded transport offered .fresh s []
  obtain ⟨isOpen, r', ⟨s', log⟩, same, agree, last, before, all, forall₂⟩ :=
    (h.recorded calls).run (s := (s, [])) host strategy service limit offered script finished
      ⟨hr, [], List.nil_append calls, .nil⟩
  have logged : b.calls transport offered .fresh s = made := by
    simp [Authenticator.calls, recorded]
  rw [List.append_nil] at all
  rw [show (b.recorded ε).run transport.recorded offered (.fresh, s, []) = _ from same] at recorded
  obtain ⟨hr', hn', hs', hlog⟩ : r' = carried.1 ∧ played.2.1 = carried.2.1 ∧
      s' = carried.2.2 ∧ log = made := by
    simpa [carried] using recorded
  subst all
  rw [logged, ← hlog, ← hr', ← hs']
  exact ⟨forall₂, agree, hn'.symm, isOpen, last⟩

end Transport.Carries
end MailClient.Sasl
