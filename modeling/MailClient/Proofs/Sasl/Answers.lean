import Mathlib.Data.List.Chain
import MailClient.Proofs.Sasl.Talk

/-! Whether a run answers only what the server has asked it. It does, unless an earlier run broke
off in the middle of an exchange: what the server offers is then taken for a challenge. -/
namespace MailClient.Sasl

variable {σ ε : Type} {limit : Duration} {fault : Error → ε} {calls : List (Call ε)}
  {r : Except ε Outcome} {n n' : Negotiation}

namespace Call

def isStart : Call ε → Bool
  | .start .. => true
  | _ => false

def isRespond : Call ε → Bool
  | .respond .. => true
  | _ => false

/-- If `call` is an answer, then to a challenge that `earlier` was met with. -/
def Warrants (earlier call : Call ε) : Prop :=
  call.isRespond = true → ∃ data, earlier.step? = some (.ok (.challenge data))

theorem warrants_of_not_isRespond {earlier call : Call ε} (h : call.isRespond = false) :
    earlier.Warrants call := by
  simp [Warrants, h]

end Call

def atTransport (calls : List (Call ε)) : List (Call ε) := calls.filter Call.atTransport

structure AnswersOnly (calls : List (Call ε)) : Prop where
  begins : ∀ call ∈ (atTransport calls).head?, call.isStart = true
  answers : (atTransport calls).IsChain Call.Warrants

/-- What is offered goes on with an exchange that has turns to go. -/
def Negotiation.Resumes (n : Negotiation) (offered : List Challenge) : Prop :=
  ∃ x c, n.turn? offered = some (x, c) ∧ (x.challenge c).complete = false

namespace Negotiation

variable {offered : List Challenge}

theorem not_resumes_of_none (h : n.turn? offered = none) : ¬n.Resumes offered := by
  rintro ⟨x, c, ht, -⟩
  simp [h] at ht

theorem not_resumes_nil : ¬n.Resumes [] :=
  not_resumes_of_none (by simp [turn?])

theorem not_resumes_of_failure (hp : n.phase = .failure) : ¬n.Resumes offered :=
  not_resumes_of_none (by simp [turn?, hp])

end Negotiation

/-! ### Within a run -/

@[simp] theorem atTransport_message (message : ClientMessage) (answer : Except ε ServerStep) :
    atTransport (message.call answer :: calls) = message.call answer :: atTransport calls := by
  simp [atTransport]

theorem atTransport_cons_of_false {call : Call ε} (h : call.atTransport = false) :
    atTransport (call :: calls) = atTransport calls := by
  simp [atTransport, h]

/-- In an exchange each answer follows a challenge. -/
theorem Talk.answers {refreshed : Bool} {x : Exchange} {message : ClientMessage}
    (h : Talk limit fault refreshed n x message calls r n') :
    (atTransport calls).IsChain Call.Warrants := by
  induction h with
  | lost | accepted | rejected | denied => simp [atTransport]
  | renewed _ talk ih =>
    obtain ⟨answer, rest, rfl⟩ := talk.sent
    rw [atTransport_message] at ih
    rw [atTransport_message, atTransport_cons_of_false rfl, atTransport_cons_of_false rfl,
      atTransport_message]
    exact List.isChain_cons_cons.mpr ⟨Call.warrants_of_not_isRespond rfl, ih⟩
  | answered _ _ talk ih =>
    obtain ⟨answer, rest, rfl⟩ := talk.sent
    rw [atTransport_message] at ih
    rw [atTransport_message, atTransport_message]
    exact List.isChain_cons_cons.mpr ⟨fun _ => ⟨_, ClientMessage.call_step? _ _⟩, ih⟩
  | abandoned =>
    rw [atTransport_message]
    exact List.isChain_pair.mpr (Call.warrants_of_not_isRespond rfl)

@[simp] theorem atTransport_append (calls later : List (Call ε)) :
    atTransport (calls ++ later) = atTransport calls ++ atTransport later :=
  List.filter_append ..

theorem atTransport_requests (h : ∀ call ∈ calls, call.request?.isSome = true) :
    atTransport calls = [] := by
  refine List.filter_eq_nil_iff.mpr fun call hc => ?_
  simp [Call.atTransport_of_request? (h call hc)]

theorem answersOnly_of_still (h : atTransport calls = []) : AnswersOnly calls where
  begins := by simp [h]
  answers := by simp [h]

theorem not_answersOnly_cons {call : Call ε} (ht : call.atTransport = true)
    (hs : call.isStart = false) : ¬AnswersOnly (call :: calls) := by
  intro answers
  have begins := answers.begins call (by simp [atTransport, ht])
  simp [hs] at begins

/-- After calls of the token provider only, an exchange that begins is well begun. -/
theorem Talk.answersOnly {refreshed : Bool} {x : Exchange} {scheme : Scheme}
    {initial : Option String} {earlier : List (Call ε)} (he : atTransport earlier = [])
    (h : Talk limit fault refreshed n x (.start scheme initial) calls r n') :
    AnswersOnly (earlier ++ calls) where
  begins := by
    obtain ⟨answer, rest, rfl⟩ := h.sent
    rw [atTransport_append, he, List.nil_append, atTransport_message]
    intro call hc
    obtain rfl := Option.some.inj hc
    rfl
  answers := by
    rw [atTransport_append, he]
    exact h.answers

namespace Authenticator

/-- A run answers only what it has been asked, unless it goes on with an exchange that an earlier
run has left. -/
theorem answersOnly_iff (a : Authenticator σ) (transport : Transport σ ε)
    (offered : List Challenge) (n : Negotiation) (s : σ) :
    AnswersOnly (a.calls transport offered n s) ↔ ¬n.Resumes offered := by
  have ran := ran a transport offered n s
  generalize a.calls transport offered n s = calls at ran ⊢
  generalize (a.run transport offered (n, s)).1 = r at ran
  generalize (a.run transport offered (n, s)).2.1 = n' at ran
  cases ran with
  | unasked ho =>
    subst ho
    exact iff_of_true (answersOnly_of_still rfl) Negotiation.not_resumes_nil
  | closed _ hp =>
    exact iff_of_true (answersOnly_of_still rfl) (Negotiation.not_resumes_of_failure hp)
  | exhausted ht passed =>
    have still := atTransport_requests fun call hc => passed.isSome_request? hc
    exact iff_of_true (answersOnly_of_still still) (Negotiation.not_resumes_of_none ht)
  | @begun _ _ _ skipped _ prepared calls _ _ ht _ passed _ ready talk =>
    have asked : atTransport (skipped ++ prepared) = [] := by
      rw [atTransport_append, atTransport_requests fun call hc => passed.isSome_request? hc,
        atTransport_requests fun call hc => ready.isSome_request? hc, List.nil_append]
    have answers := talk.answersOnly asked
    rw [List.append_assoc] at answers
    exact iff_of_true answers (Negotiation.not_resumes_of_none ht)
  | spent ht complete =>
    refine iff_of_true (answersOnly_of_still rfl) ?_
    rintro ⟨x, c, ht', unfinished⟩
    cases ht.symm.trans ht'
    simp [complete] at unfinished
  | resumed ht unfinished _ talk =>
    obtain ⟨answer, rest, rfl⟩ := talk.sent
    exact iff_of_false (not_answersOnly_cons rfl rfl) (not_not_intro ⟨_, _, ht, unfinished⟩)
  | dropped ht unfinished _ =>
    exact iff_of_false (not_answersOnly_cons rfl rfl) (not_not_intro ⟨_, _, ht, unfinished⟩)

def loginOnly : Authenticator Unit where
  host := "mail.example.com"
  strategy := .inOrder [⟨.login, .password "user" "pw"⟩]
  tokens := .constant (.error (.tokenUnavailable "user"))

def afterLoss : Negotiation :=
  (loginOnly.run (.constant (.error (.transport "gone"))) [.offer .login] (.fresh, ())).2.1

theorem afterLoss_eq : afterLoss =
    ⟨.challenged, some (.start ⟨.login, .password "user" "pw"⟩), []⟩ := by
  let x : Exchange := .start ⟨.login, .password "user" "pw"⟩
  have begun : Negotiation.Engaged ⟨.challenged, some x, []⟩ x := ⟨rfl, .inl rfl, rfl⟩
  calc afterLoss
    _ = (loginOnly.converse (.constant (.error (.transport "gone"))) [.offer .login] false
          (.start .login none) ⟨.challenged, some x, []⟩ ()).2.1 := by
        rw [afterLoss, run_select (List.cons_ne_nil _ _) (by decide) rfl]
        rfl
    _ = ⟨.challenged, some x, []⟩ := by
        rw [converse_engaged begun]
        rfl

/-- The next run begins with an answer. -/
theorem answers_unasked_after_loss :
    loginOnly.calls (.constant (.ok .success)) [.offer .login] afterLoss () =
      [.respond (Payload.login "user") (.ok .success)] ∧
    ¬AnswersOnly
      (loginOnly.calls (.constant (.ok .success)) [.offer .login] afterLoss ()) := by
  constructor
  · let x : Exchange := ⟨⟨.login, .password "user" "pw"⟩, 1, none, false⟩
    have asked : Negotiation.Engaged ⟨.handshake, some x, []⟩ x := ⟨rfl, .inr rfl, rfl⟩
    have resumed : afterLoss.turn? [.offer .login] =
        some (.start ⟨.login, .password "user" "pw"⟩, .offer .login) := by
      rw [afterLoss_eq]
      rfl
    calc loginOnly.calls (.constant (.ok .success)) [.offer .login] afterLoss ()
      _ = ((loginOnly.recorded Error).converse (Transport.constant (.ok .success)).recorded
            [.offer .login] false (.answer (Payload.login "user")) ⟨.handshake, some x, []⟩
            ((), [])).2.2.2 := by
          rw [calls, run_turn resumed, afterLoss_eq]
          rfl
      _ = [.respond (Payload.login "user") (.ok .success)] := by
          rw [converse_engaged asked]
          rfl
  · rw [answersOnly_iff, not_not, afterLoss_eq]
    exact ⟨.start ⟨.login, .password "user" "pw"⟩, .offer .login, rfl, rfl⟩

end Authenticator

/-! ### From run to run -/

theorem Talk.lost_of_resumes {refreshed : Bool} {x : Exchange} {message : ClientMessage}
    {offered : List Challenge} (h : Talk limit fault refreshed n x message calls r n')
    (hr : n'.Resumes offered) :
    ∃ call e, calls.getLast? = some call ∧ call.step? = some (.error e) ∧ r = .error e := by
  induction h with
  | @lost _ _ _ message e => exact ⟨message.call (.error e), e, rfl, by simp, rfl⟩
  | @accepted _ n =>
    have done : n.succeed.turn? offered = none := by simp [Negotiation.turn?, Negotiation.succeed]
    exact absurd hr (Negotiation.not_resumes_of_none done)
  | rejected | denied | abandoned => exact absurd hr (Negotiation.not_resumes_of_failure rfl)
  | renewed _ _ ih =>
    obtain ⟨call, e, last, step, result⟩ := ih hr
    exact ⟨call, e, by simp [List.getLast?_cons, last], step, result⟩
  | answered _ _ _ ih =>
    obtain ⟨call, e, last, step, result⟩ := ih hr
    exact ⟨call, e, by simp [List.getLast?_cons, last], step, result⟩

namespace Authenticator

/-- What a later run can go on with is left by a run whose last message was lost in the transport.
A run that is offered nothing leaves all as it was. -/
theorem lost_of_resumes {a : Authenticator σ} {transport : Transport σ ε}
    {offered later : List Challenge} {s : σ} (ho : offered ≠ [])
    (hr : (a.run transport offered (n, s)).2.1.Resumes later) :
    ∃ call e, (a.calls transport offered n s).getLast? = some call ∧
      call.step? = some (.error e) ∧ (a.run transport offered (n, s)).1 = .error e := by
  have ran := ran a transport offered n s
  generalize a.calls transport offered n s = calls at ran ⊢
  generalize (a.run transport offered (n, s)).1 = r at ran ⊢
  generalize (a.run transport offered (n, s)).2.1 = n' at ran hr
  cases ran with
  | unasked h => exact absurd h ho
  | closed _ hp => exact absurd hr (Negotiation.not_resumes_of_failure hp)
  | exhausted | spent | dropped => exact absurd hr (Negotiation.not_resumes_of_failure rfl)
  | begun _ _ _ _ _ talk =>
    obtain ⟨call, e, last, step, result⟩ := talk.lost_of_resumes hr
    exact ⟨call, e, by simp [List.getLast?_append, last], step, result⟩
  | resumed _ _ _ talk => exact talk.lost_of_resumes hr

end Authenticator
end MailClient.Sasl
