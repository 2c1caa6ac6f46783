import MailClient.Sasl.Authentication

/-! Where the failures of an authentication come from: from the transport, or from the exchange of
messages, which knows nothing of the transport. So what holds of both holds of every failure. -/
namespace MailClient.Sasl

variable {σ ε : Type}

structure Transport.Leaves (transport : Transport σ ε) (holds : ε → σ → Prop) : Prop where
  start {scheme s initial e s'} : transport.start scheme initial s = (.error e, s') → holds e s'
  respond {data s e s'} : transport.respond data s = (.error e, s') → holds e s'
  cancel {s e s'} : transport.cancel s = (.error e, s') → holds e s'
  auth (why : Error) (s : σ) : holds (transport.ofAuth why) s

namespace Authenticator

variable {transport : Transport σ ε} {holds : ε → σ → Prop} {e : ε} {s s' : σ}
  {a : Authenticator σ} {offered : List Challenge} {refreshed : Bool} {message : ClientMessage}
  {n n' : Negotiation}

theorem leaves_send (ht : transport.Leaves holds) (h : send transport message s = (.error e, s')) :
    holds e s' := by
  cases message with
  | start scheme initial => exact ht.start h
  | answer data => exact ht.respond h

theorem leaves_abandon {why : Error} (ht : transport.Leaves holds)
    (h : abandon transport why s = (.error e, s')) : holds e s' := by
  change Action.bind transport.cancel (fun _ => Action.fail (transport.ofAuth why)) s = _ at h
  unfold Action.bind at h
  split at h
  next hc =>
    cases h
    exact ht.auth why _
  next hc =>
    cases h
    exact ht.cancel hc

theorem leaves_converse (ht : transport.Leaves holds)
    (h : a.converse transport offered refreshed message n s = (.error e, n', s')) : holds e s' := by
  fun_induction converse a transport offered refreshed message n s
  case case1 hs =>
    cases h
    exact leaves_send ht hs
  case case2 => cases h
  case case4 ih => exact ih h
  case case8 ih => exact ih h
  case case10 habandon =>
    cases h
    exact leaves_abandon ht habandon
  case case11 habandon =>
    cases h
    exact leaves_abandon ht habandon
  -- In all other cases the exchange gives up without another message.
  all_goals
    cases h
    exact ht.auth _ _

/-- A failed run leaves what its transport leaves. -/
theorem leaves_run (ht : transport.Leaves holds)
    (h : a.run transport offered (n, s) = (.error e, n', s')) : holds e s' := by
  unfold run at h
  dsimp only at h
  split at h
  · cases h
  · cases h
    exact ht.auth _ _
  · split at h
    · exact leaves_converse ht h
    · cases h
      exact ht.auth _ _
    next why _ s₁ _ =>
      generalize habandon : abandon transport why s₁ = p at h
      obtain ⟨r, s₂⟩ := p
      cases h
      exact leaves_abandon ht habandon

end Authenticator
end MailClient.Sasl
