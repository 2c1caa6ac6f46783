import MailClient.Proofs.Sasl.Failures

/-! What an authentication makes of the state around it. A run only begins a scheme, answers the
server once a scheme has begun, gives up, and asks for tokens. So where it leads to is known from
where each of these leads to. -/
namespace MailClient.Sasl

variable {σ ε : Type}

/-- All that a run does stays within `rel`. Answers and giving up may rely on a scheme that has
begun, and token requests do not undo that. -/
structure Transport.Within (transport : Transport σ ε) (tokens : TokenProvider σ)
    (rel : σ → σ → Prop) (begun : σ → Prop) : Prop where
  refl (s) : rel s s
  trans {s₁ s₂ s₃} : rel s₁ s₂ → rel s₂ s₃ → rel s₁ s₃
  start (scheme initial s) : rel s (transport.start scheme initial s).2
  begins {scheme initial s step s'} : transport.start scheme initial s = (.ok step, s') → begun s'
  respond (data) {s} : begun s → rel s (transport.respond data s).2
  goesOn {data s step s'} : begun s → transport.respond data s = (.ok step, s') → begun s'
  cancel {s} : begun s → rel s (transport.cancel s).2
  get (identity limit s) : rel s (tokens.get identity limit s).2
  begun_get (identity limit) {s} : begun s → begun (tokens.get identity limit s).2
  invalidate (identity s) : rel s (tokens.invalidate identity s)

variable {transport : Transport σ ε} {tokens : TokenProvider σ} {rel : σ → σ → Prop}
  {begun : σ → Prop} {limit : Duration} {s s' : σ} {n n' : Negotiation}

namespace Negotiation

/-! ### Choosing a message -/

/-- The state that a token request leaves, or the state as it was. -/
theorem openExchange_state (tokens : TokenProvider σ) (limit : Duration) (candidate : Candidate)
    (s : σ) : (openExchange tokens limit candidate s).2 =
      if candidate.scheme.usesToken then (tokens.get candidate.credentials.user limit s).2
      else s := by
  unfold openExchange
  dsimp only
  split
  · split
    next hg => rw [hg]
    next hg => rw [hg]
  · rfl

theorem within_openExchange (limit : Duration) (ht : transport.Within tokens rel begun)
    (candidate : Candidate) (s : σ) : rel s (openExchange tokens limit candidate s).2 := by
  rw [openExchange_state]
  split
  · exact ht.get _ _ _
  · exact ht.refl s

theorem begun_openExchange (limit : Duration) (ht : transport.Within tokens rel begun)
    (candidate : Candidate) (hs : begun s) : begun (openExchange tokens limit candidate s).2 := by
  rw [openExchange_state]
  split
  · exact ht.begun_get _ _ hs
  · exact hs

theorem within_openFirst (ht : transport.Within tokens rel begun) (queue : List Candidate)
    (s : σ) : rel s (openFirst tokens limit queue s).2 := by
  induction queue generalizing s with
  | nil => exact ht.refl s
  | cons candidate rest ih =>
    have opened := within_openExchange limit ht candidate s
    unfold openFirst
    split
    next ho =>
      rw [ho] at opened
      exact opened
    next ho =>
      rw [ho] at opened
      exact ht.trans opened (ih _)

theorem begun_openFirst (ht : transport.Within tokens rel begun) (queue : List Candidate)
    (hs : begun s) : begun (openFirst tokens limit queue s).2 := by
  induction queue generalizing s with
  | nil => exact hs
  | cons candidate rest ih =>
    have opened := begun_openExchange limit ht candidate hs
    unfold openFirst
    split
    next ho =>
      rw [ho] at opened
      exact opened
    next ho =>
      rw [ho] at opened
      exact ih opened

/-- The next message comes from the queue, for which tokens may be needed, or from the active
exchange. -/
theorem next_state (tokens : TokenProvider σ) (limit : Duration) (n : Negotiation) (s : σ) :
    (next tokens limit (n, s)).2.2 =
      if n.phase = .challenged then (openFirst tokens limit n.queue s).2 else s := by
  obtain ⟨phase, active, queue⟩ := n
  cases phase with
  | challenged =>
    simp only [next, if_true]
    split
    next ho => rw [ho]
    next ho => rw [ho]
  | handshake =>
    simp only [next, reduceCtorEq, if_false]
    split
    · rfl
    · split <;> rfl
  | _ => rfl

theorem within_next {r : Except Error (Option ClientMessage)}
    (ht : transport.Within tokens rel begun) (h : next tokens limit (n, s) = (r, n', s')) :
    rel s s' := by
  have hs := next_state tokens limit n s
  rw [h] at hs
  rw [show s' = _ from hs]
  split
  · exact within_openFirst ht n.queue s
  · exact ht.refl s

theorem begun_next {r : Except Error (Option ClientMessage)}
    (ht : transport.Within tokens rel begun) (hb : begun s)
    (h : next tokens limit (n, s) = (r, n', s')) : begun s' := by
  have hs := next_state tokens limit n s
  rw [h] at hs
  rw [show s' = _ from hs]
  split
  · exact begun_openFirst ht n.queue hb
  · exact hb

/-- Before a scheme is active, the next message begins one. -/
theorem next_of_challenged {r : Except Error (Option ClientMessage)} (hp : n.phase = .challenged)
    (h : next tokens limit (n, s) = (r, n', s')) :
    r = .ok none ∨ ∃ scheme initial, r = .ok (some (.start scheme initial)) := by
  obtain ⟨phase, active, queue⟩ := n
  obtain rfl : phase = .challenged := hp
  simp only [next] at h
  split at h
  · cases h
    exact .inr ⟨_, _, rfl⟩
  · cases h
    exact .inl rfl

theorem within_refresh {r : Except Error ClientMessage} (ht : transport.Within tokens rel begun)
    (h : refresh tokens limit (n, s) = (r, n', s')) : rel s s' := by
  unfold refresh at h
  dsimp only at h
  split at h
  · cases h
    exact ht.refl s
  next x _ =>
    have opened := within_openExchange limit ht x.candidate s
    split at h
    next ho =>
      cases h
      rw [ho] at opened
      exact opened
    next ho =>
      cases h
      rw [ho] at opened
      exact opened

/-- A fresh token goes with a scheme that begins again. -/
theorem refresh_ok {message : ClientMessage}
    (h : refresh tokens limit (n, s) = (.ok message, n', s')) :
    ∃ scheme initial, message = .start scheme initial := by
  unfold refresh at h
  dsimp only at h
  split at h
  · cases h
  · split at h
    · cases h
      exact ⟨_, _, rfl⟩
    · cases h

end Negotiation

namespace Authenticator

variable {a : Authenticator σ} {offered : List Challenge} {refreshed : Bool}
  {message : ClientMessage}

/-! ### Carrying messages -/

def Ready (begun : σ → Prop) (message : ClientMessage) (s : σ) : Prop :=
  match message with
  | .start .. => True
  | .answer _ => begun s

theorem Ready.of_begun (hs : begun s) : Ready begun message s := by
  cases message with
  | start => exact trivial
  | answer => exact hs

theorem within_send {r : Except ε ServerStep} (ht : transport.Within tokens rel begun)
    (hm : Ready begun message s) (h : send transport message s = (r, s')) : rel s s' := by
  have hs : s' = (send transport message s).2 := by rw [h]
  rw [hs]
  cases message with
  | start scheme initial => exact ht.start scheme initial s
  | answer data => exact ht.respond data hm

theorem begun_send {step : ServerStep} (ht : transport.Within tokens rel begun)
    (hm : Ready begun message s) (h : send transport message s = (.ok step, s')) : begun s' := by
  cases message with
  | start scheme initial => exact ht.begins h
  | answer data => exact ht.goesOn hm h

theorem abandon_state (transport : Transport σ ε) (why : Error) (s : σ) :
    (abandon transport why s).2 = (transport.cancel s).2 := by
  change (Action.bind transport.cancel (fun _ => Action.fail (transport.ofAuth why)) s).2 = _
  unfold Action.bind
  split
  next hc => rw [hc]; rfl
  next hc => rw [hc]

theorem within_abandon {why : Error} {r : Except ε Outcome}
    (ht : transport.Within tokens rel begun) (hs : begun s)
    (h : abandon transport why s = (r, s')) : rel s s' := by
  have hs' := abandon_state transport why s
  rw [h] at hs'
  rw [show s' = _ from hs']
  exact ht.cancel hs

theorem within_converse (ht : transport.Within a.tokens rel begun) (hm : Ready begun message s) :
    rel s (a.converse transport offered refreshed message n s).2.2 := by
  fun_induction converse a transport offered refreshed message n s with
  | case4 _ _ s _ s₁ hs x _ message _ _ hr ih =>
    obtain ⟨scheme, initial, rfl⟩ := Negotiation.refresh_ok hr
    have refreshed := ht.trans (ht.invalidate x.user s₁) (Negotiation.within_refresh ht hr)
    exact ht.trans (within_send ht hm hs) (ht.trans refreshed (ih trivial))
  | case5 _ _ s _ s₁ hs x _ _ _ _ hr =>
    have refreshed := ht.trans (ht.invalidate x.user s₁) (Negotiation.within_refresh ht hr)
    exact ht.trans (within_send ht hm hs) refreshed
  | case8 _ _ _ _ _ _ hs _ _ _ _ _ _ _ hn _ ih =>
    have chosen := Negotiation.within_next ht hn
    have ready := Negotiation.begun_next ht (begun_send ht hm hs) hn
    exact ht.trans (within_send ht hm hs) (ht.trans chosen (ih (.of_begun ready)))
  | case9 _ _ _ _ _ _ hs _ _ _ _ _ _ hn =>
    exact ht.trans (within_send ht hm hs) (Negotiation.within_next ht hn)
  | case10 _ _ _ _ _ _ hs _ _ _ _ _ _ _ hn _ _ ha =>
    have chosen := Negotiation.within_next ht hn
    have ready := Negotiation.begun_next ht (begun_send ht hm hs) hn
    exact ht.trans (within_send ht hm hs) (ht.trans chosen (within_abandon ht ready ha))
  | case11 _ _ _ _ _ _ hs _ _ _ _ _ _ _ _ _ ha =>
    exact ht.trans (within_send ht hm hs) (within_abandon ht (begun_send ht hm hs) ha)
  -- In all other cases the server's answer is the last thing that happens.
  | case1 | case2 | case3 | case6 | case7 => exact within_send ht hm ‹_›

/-- A run that has nothing behind it begins with a scheme, so nothing need have begun before. -/
theorem within_run (ht : transport.Within a.tokens rel begun) (s : σ) :
    rel s (a.run transport offered (.fresh, s)).2.2 := by
  unfold run
  dsimp only
  split
  · exact ht.refl s
  · exact ht.refl s
  next n hc =>
    have challenged : n.phase = .challenged := by
      unfold Negotiation.challenge at hc
      split at hc
      · cases hc
      · exact Negotiation.phase_of_select hc
    split
    next hn =>
      have chosen := Negotiation.within_next ht hn
      rcases Negotiation.next_of_challenged challenged hn with hm | ⟨_, _, hm⟩
      · cases hm
      · cases hm
        exact ht.trans chosen (within_converse ht trivial)
    next hn => exact Negotiation.within_next ht hn
    next hn =>
      rcases Negotiation.next_of_challenged challenged hn with hm | ⟨_, _, hm⟩
      · cases hm
      · cases hm

end Authenticator
end MailClient.Sasl
