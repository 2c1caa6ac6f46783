import MailClient.Proofs.Sasl.Calls

/-! All that a run of an authentication can be, as the calls that it makes. What the calls of a run
are is derived here once, and every statement about runs from this. -/
namespace MailClient.Sasl

open Negotiation (Engaged)

variable {σ ε : Type} {limit : Duration} {fault : Error → ε}

/-- The error of a run that is given up: why it is, unless that fails itself. -/
def givenUp (why : ε) : Except ε Unit → ε
  | .ok () => why
  | .error e => e

inductive Unanswered (x : Exchange) (data : String) : Error → Prop where
  | complete : (x.challenge (.turn x.scheme data)).complete = true →
      Unanswered x data (Authenticator.stuck x.scheme)
  | failed {why} : (x.challenge (.turn x.scheme data)).complete = false →
      ((x.challenge (.turn x.scheme data)).answer none).1 = .error why → Unanswered x data why

/-- What an exchange can lead to from a message on: the calls, the result, and what is left of the
negotiation. A token can be `refreshed` once. -/
inductive Talk (limit : Duration) (fault : Error → ε) :
    (refreshed : Bool) → Negotiation → Exchange → ClientMessage →
      List (Call ε) → Except ε Outcome → Negotiation → Prop where
  | lost {refreshed n x message e} :
      Talk limit fault refreshed n x message [message.call (.error e)] (.error e) n
  | accepted {refreshed n x message} :
      Talk limit fault refreshed n x message [message.call (.ok .success)]
        (.ok (.authenticated x.scheme)) n.succeed
  | rejected {refreshed n x message why} : refreshed = true ∨ x.scheme.usesToken = false →
      Talk limit fault refreshed n x message [message.call (.ok (.rejected why))]
        (.error (fault (.rejected why))) .failed
  | denied {n x message why e} : x.scheme.usesToken = true →
      Talk limit fault false n x message
        [message.call (.ok (.rejected why)), .invalidate x.user, .get x.user limit (.error e)]
        (.error (fault e)) .failed
  | renewed {n x message why token calls r n'} : x.scheme.usesToken = true →
      Talk limit fault true (n.renew (x.candidate.opened (some token)))
        (x.candidate.opened (some token)) (.start x.scheme (x.candidate.opening (some token)))
        calls r n' →
      Talk limit fault false n x message
        (message.call (.ok (.rejected why)) :: .invalidate x.user ::
          .get x.user limit (.ok token) :: calls) r n'
  | answered {refreshed n x message data reply x' calls r n'} :
      (x.challenge (.turn x.scheme data)).complete = false →
      (x.challenge (.turn x.scheme data)).answer none = (.ok reply, x') →
      Talk limit fault refreshed (n.proceed x') x' (.answer (reply.getD "")) calls r n' →
      Talk limit fault refreshed n x message (message.call (.ok (.challenge data)) :: calls) r n'
  | abandoned {refreshed n x message data why answer} : Unanswered x data why →
      Talk limit fault refreshed n x message
        [message.call (.ok (.challenge data)), .cancel answer]
        (.error (givenUp (fault why) answer)) .failed

/-- The message is sent before all else. -/
theorem Talk.sent {refreshed : Bool} {n n' : Negotiation} {x : Exchange} {message : ClientMessage}
    {calls : List (Call ε)} {r : Except ε Outcome}
    (h : Talk limit fault refreshed n x message calls r n') :
    ∃ answer rest, calls = message.call answer :: rest := by
  cases h <;> exact ⟨_, _, rfl⟩

namespace Authenticator

variable {n : Negotiation} {x : Exchange}

theorem send_recorded (transport : Transport σ ε) (message : ClientMessage) (s : σ)
    (log : List (Call ε)) : send transport.recorded message (s, log) =
      ((send transport message s).1, (send transport message s).2,
        log ++ [message.call (send transport message s).1]) := by
  cases message <;> rfl

/-- Giving up takes one call, which may fail itself. -/
theorem abandon_eq (transport : Transport σ ε) (why : Error) (s : σ) :
    abandon transport why s =
      (.error (givenUp (transport.ofAuth why) (transport.cancel s).1), (transport.cancel s).2) := by
  change Action.bind transport.cancel (fun _ => Action.fail (transport.ofAuth why)) s = _
  unfold Action.bind
  rcases transport.cancel s with ⟨_ | _, s'⟩ <;> rfl

theorem abandon_recorded (transport : Transport σ ε) (why : Error) (s : σ) (log : List (Call ε)) :
    abandon transport.recorded why (s, log) =
      ((abandon transport why s).1, (abandon transport why s).2,
        log ++ [.cancel (transport.cancel s).1]) := by
  rw [abandon_eq, abandon_eq]
  rfl

theorem engaged_proceed {x' : Exchange} (hf : x'.candidate.fits = true) :
    Engaged (n.proceed x') x' := ⟨rfl, .inr rfl, hf⟩

theorem engaged_renew {x' : Exchange} (hf : x'.candidate.fits = true) :
    Engaged (n.renew x') x' := ⟨rfl, .inl rfl, hf⟩

/-- The calls of an exchange that is under way. To record them changes nothing of the run. -/
theorem talk_converse (a : Authenticator σ) (transport : Transport σ ε) (offered : List Challenge)
    (h : Engaged n x) (refreshed : Bool) (message : ClientMessage) (s : σ) (log : List (Call ε)) :
    ∃ calls, (a.recorded ε).converse transport.recorded offered refreshed message n (s, log) =
        ((a.converse transport offered refreshed message n s).1,
          (a.converse transport offered refreshed message n s).2.1,
          (a.converse transport offered refreshed message n s).2.2, log ++ calls) ∧
      Talk a.limit transport.ofAuth refreshed n x message calls
        (a.converse transport offered refreshed message n s).1
        (a.converse transport offered refreshed message n s).2.1 := by
  -- Each answer leaves fewer turns, and a fresh token, of which there is one, at most two.
  induction hk : (if refreshed then 0 else 3) + (x.scheme.turns - x.sent.toNat) using
    Nat.strongRecOn generalizing refreshed n x message s log with
  | ind k ih =>
    rw [converse_engaged h, converse_engaged h, send_recorded]
    rcases send transport message s with ⟨e | data | _ | why, s₁⟩
    · exact ⟨_, rfl, .lost⟩
    · dsimp only
      cases hcomplete : (x.challenge (.turn x.scheme data)).complete with
      | true =>
        rw [if_pos rfl, if_pos rfl, abandon_recorded, abandon_eq]
        exact ⟨[message.call (.ok (.challenge data)), .cancel (transport.cancel s₁).1],
          by simp, .abandoned (.complete hcomplete)⟩
      | false =>
        rw [if_neg (by simp), if_neg (by simp)]
        rcases hanswer : (x.challenge (.turn x.scheme data)).answer none with ⟨e | reply, x'⟩
        · dsimp only
          rw [abandon_recorded, abandon_eq]
          exact ⟨[message.call (.ok (.challenge data)), .cancel (transport.cancel s₁).1],
            by simp, .abandoned (.failed hcomplete (by rw [hanswer]))⟩
        · obtain ⟨hscheme, hlt, hsent⟩ := Negotiation.sent_lt_of_answer hcomplete hanswer
          have candidate := Exchange.candidate_of_answer hanswer
          have fewer : (if refreshed then 0 else 3) + (x'.scheme.turns - x'.sent.toNat) < k := by
            rw [← hk, hscheme, hsent]
            omega
          obtain ⟨calls, hcalls, talk⟩ := ih _ fewer
            (engaged_proceed (candidate ▸ h.fits)) refreshed (.answer (reply.getD "")) s₁
            (log ++ [message.call (.ok (.challenge data))]) rfl
          exact ⟨_, by simpa using hcalls, .answered hcomplete hanswer talk⟩
    · exact ⟨_, rfl, .accepted⟩
    · dsimp only
      by_cases hr : refreshed = false ∧ x.scheme.usesToken = true
      · rw [if_pos hr, if_pos hr]
        obtain ⟨rfl, hu⟩ := hr
        obtain ⟨calls, hopen, tried⟩ := Negotiation.openExchange_recorded a.tokens a.limit
          x.candidate (a.tokens.invalidate x.user s₁)
          (log ++ [message.call (.ok (.rejected why))] ++ [.invalidate x.user])
        have asked : Negotiation.openExchange (a.recorded ε).tokens (a.recorded ε).limit x.candidate
            ((a.recorded ε).tokens.invalidate x.user
              (s₁, log ++ [message.call (.ok (.rejected why))])) = _ := hopen
        rw [asked]
        generalize Negotiation.openExchange a.tokens a.limit x.candidate
          (a.tokens.invalidate x.user s₁) = p at tried ⊢
        obtain ⟨e | ⟨initial, x'⟩, s₂⟩ := p
        · cases tried with
          | barred hb =>
            cases hb with
            | denied e _ =>
              exact ⟨[message.call (.ok (.rejected why)), .invalidate x.user,
                .get x.user a.limit (.error e)], by simp, .denied hu⟩
            | unfit hf _ => simp [h.fits] at hf
        · cases tried with
          | opened hf hp =>
            cases hp with
            | plain hplain =>
              simp [hu] at hplain
            | granted token _ =>
              have fewer : (if true then 0 else 3) +
                  ((x.candidate.opened (some token)).scheme.turns -
                    (x.candidate.opened (some token)).sent.toNat) < k := by
                have few := Negotiation.turns_le_two x.scheme
                rw [← hk]
                simp
                omega
              have engaged : Engaged (n.renew (x.candidate.opened (some token)))
                  (x.candidate.opened (some token)) := engaged_renew h.fits
              obtain ⟨calls, hcalls, talk⟩ := ih _ fewer engaged true
                (.start x.scheme (x.candidate.opening (some token))) s₂
                (log ++ [message.call (.ok (.rejected why))] ++ [.invalidate x.user] ++
                  [.get x.user a.limit (.ok token)]) rfl
              exact ⟨_, by simpa using hcalls, .renewed hu talk⟩
      · rw [if_neg hr, if_neg hr]
        refine ⟨_, rfl, .rejected ?_⟩
        cases refreshed with
        | true => exact .inl rfl
        | false => exact .inr (by simpa using hr)

end Authenticator

/-! ### Whole runs -/

/-- The exchange for which a negotiation takes an offer, and the offer. -/
def Negotiation.turn? (n : Negotiation) (offered : List Challenge) :
    Option (Exchange × Challenge) :=
  if n.phase = .challenged ∨ n.phase = .handshake then
    n.active.bind fun x => (offered.find? fun c => c.scheme == x.scheme).map fun c => (x, c)
  else none

namespace Authenticator

def unusable (fault : Error → ε) (offered : List Challenge) : ε :=
  fault (.noUsableOption (offeredNames offered))

inductive Ran (a : Authenticator σ) (fault : Error → ε) (offered : List Challenge)
    (n : Negotiation) : List (Call ε) → Except ε Outcome → Negotiation → Prop where
  | unasked : offered = [] → Ran a fault offered n [] (.ok .unauthenticated) n
  | closed : offered ≠ [] → n.phase = .failure →
      Ran a fault offered n [] (.error (unusable fault offered)) n
  | exhausted {calls} : n.turn? offered = none →
      PassedOver a.limit (a.strategy a.host offered) calls →
      Ran a fault offered n calls (.error (unusable fault offered)) .failed
  | begun {before chosen rest skipped token prepared calls r n'} : n.turn? offered = none →
      a.strategy a.host offered = before ++ chosen :: rest →
      PassedOver a.limit before skipped → chosen.fits = true →
      Prepared a.limit chosen token prepared →
      Talk a.limit fault false ⟨.challenged, some (chosen.opened token), rest⟩
        (chosen.opened token) (.start chosen.scheme (chosen.opening token)) calls r n' →
      Ran a fault offered n (skipped ++ (prepared ++ calls)) r n'
  | spent {x c} : n.turn? offered = some (x, c) → (x.challenge c).complete = true →
      Ran a fault offered n [] (.error (unusable fault offered)) .failed
  | resumed {x c reply x' calls r n'} : n.turn? offered = some (x, c) →
      (x.challenge c).complete = false → (x.challenge c).answer none = (.ok reply, x') →
      Talk a.limit fault false (n.proceed x') x' (.answer (reply.getD "")) calls r n' →
      Ran a fault offered n calls r n'
  | dropped {x c why answer} : n.turn? offered = some (x, c) →
      (x.challenge c).complete = false → ((x.challenge c).answer none).1 = .error why →
      Ran a fault offered n [.cancel answer] (.error (givenUp (fault why) answer)) .failed

variable {host : String} {offered : List Challenge} {strategy : Strategy} {n : Negotiation}

/-- What is selected does not depend on what there was before. -/
theorem challenge_select (ho : offered ≠ []) (hp : n.phase ≠ .failure)
    (ht : n.turn? offered = none) : ∃ n₀ : Negotiation,
      n.challenge host offered strategy = Negotiation.select host offered strategy n₀ := by
  have nonempty : offered.isEmpty = false := by simpa using ho
  unfold Negotiation.challenge
  unfold Negotiation.turn? at ht
  rw [nonempty]
  cases phase : n.phase with
  | failure => exact absurd phase hp
  | unchallenged => exact ⟨n, rfl⟩
  | success => exact ⟨n.reset, rfl⟩
  | challenged | handshake =>
    simp only [phase, or_true, true_or, if_true] at ht
    cases active : n.active with
    | none => exact ⟨n.reset, rfl⟩
    | some x =>
      simp only [active, Option.bind_some, Option.map_eq_none_iff] at ht
      exact ⟨n.reset, by simp [ht]⟩

theorem challenge_turn {x : Exchange} {c : Challenge} (ht : n.turn? offered = some (x, c)) :
    n.challenge host offered strategy = n.advance x c := by
  unfold Negotiation.turn? at ht
  split at ht
  next hp =>
    obtain ⟨x', active, hfind⟩ := Option.bind_eq_some_iff.mp ht
    obtain ⟨c', found, pair⟩ := Option.map_eq_some_iff.mp hfind
    cases pair
    have nonempty : offered.isEmpty = false := by
      cases offered with
      | nil => cases found
      | cons => rfl
    unfold Negotiation.challenge
    rcases hp with phase | phase <;> simp [nonempty, phase, active, found]
  next => cases ht

theorem run_closed (ho : offered ≠ []) (hp : n.phase = .failure) (a : Authenticator σ)
    (transport : Transport σ ε) (s : σ) :
    a.run transport offered (n, s) = (.error (unusable transport.ofAuth offered), n, s) := by
  have refused : n.challenge a.host offered a.strategy = (.refused, n) := by
    simp [Negotiation.challenge, ho, hp]
  unfold run
  simp only [refused]
  rfl

theorem run_select (ho : offered ≠ []) (hp : n.phase ≠ .failure) (ht : n.turn? offered = none)
    (a : Authenticator σ) (transport : Transport σ ε) (s : σ) :
    a.run transport offered (n, s) =
      match Negotiation.openFirst a.tokens a.limit (a.strategy a.host offered) s with
      | (some (initial, x, rest), s) =>
        a.converse transport offered false (.start x.scheme initial) ⟨.challenged, some x, rest⟩ s
      | (none, s) => (.error (unusable transport.ofAuth offered), .failed, s) := by
  obtain ⟨n₀, selected⟩ : ∃ n₀ : Negotiation, n.challenge a.host offered a.strategy =
      Negotiation.select a.host offered a.strategy n₀ := challenge_select ho hp ht
  unfold run
  simp only [selected, Negotiation.select]
  cases queue : a.strategy a.host offered with
  | nil => rfl
  | cons candidate rest =>
    simp only [Negotiation.next]
    rcases Negotiation.openFirst a.tokens a.limit (candidate :: rest) s with
      ⟨_ | ⟨initial, x, rest⟩, s'⟩
    · rfl
    · rfl

theorem run_turn {x : Exchange} {c : Challenge} (ht : n.turn? offered = some (x, c))
    (a : Authenticator σ) (transport : Transport σ ε) (s : σ) :
    a.run transport offered (n, s) =
      if (x.challenge c).complete then
        (.error (unusable transport.ofAuth offered), .failed, s)
      else match (x.challenge c).answer none with
        | (.ok reply, x') =>
          a.converse transport offered false (.answer (reply.getD "")) (n.proceed x') s
        | (.error e, _) =>
          let (r, s) := abandon transport e s
          (r, .failed, s) := by
  unfold run
  simp only [challenge_turn ht]
  cases hcomplete : (x.challenge c).complete with
  | true =>
    have refused : n.advance x c = (.refused, .failed) := by
      simp [Negotiation.advance, hcomplete, Negotiation.fail]
    rw [refused]
    rfl
  | false =>
    have advanced : n.advance x c = (.respond, n.proceed (x.challenge c)) := by
      simp [Negotiation.advance, hcomplete, Negotiation.proceed]
    simp only [advanced, Negotiation.next_proceed]
    rcases (x.challenge c).answer none with ⟨e | reply, x'⟩
    · rfl
    · rfl

theorem ran_recorded (a : Authenticator σ) (transport : Transport σ ε) (offered : List Challenge)
    (n : Negotiation) (s : σ) (log : List (Call ε)) :
    ∃ calls, (a.recorded ε).run transport.recorded offered (n, s, log) =
        ((a.run transport offered (n, s)).1, (a.run transport offered (n, s)).2.1,
          (a.run transport offered (n, s)).2.2, log ++ calls) ∧
      Ran a transport.ofAuth offered n calls (a.run transport offered (n, s)).1
        (a.run transport offered (n, s)).2.1 := by
  by_cases ho : offered = []
  · subst ho
    exact ⟨[], by simp [run, Negotiation.challenge], .unasked rfl⟩
  by_cases hp : n.phase = .failure
  · rw [run_closed ho hp, run_closed ho hp]
    exact ⟨[], by simp, .closed ho hp⟩
  cases ht : n.turn? offered with
  | none =>
    obtain ⟨calls, hcalls, found⟩ := Negotiation.openFirst_recorded a.tokens a.limit
      (a.strategy a.host offered) s log
    have searched : Negotiation.openFirst (a.recorded ε).tokens (a.recorded ε).limit
      ((a.recorded ε).strategy (a.recorded ε).host offered) (s, log) = _ := hcalls
    rw [run_select ho hp ht, run_select ho hp ht, searched]
    generalize Negotiation.openFirst a.tokens a.limit (a.strategy a.host offered) s = p at found ⊢
    obtain ⟨_ | ⟨initial, x, rest⟩, s₁⟩ := p
    · generalize hq : a.strategy a.host offered = queue at found
      cases found with
      | exhausted passed => exact ⟨calls, rfl, .exhausted ht (hq ▸ passed)⟩
    · generalize hq : a.strategy a.host offered = queue at found
      cases found with
      | @found before chosen rest skipped token prepared passed fits ready =>
        have engaged : Engaged ⟨.challenged, some (chosen.opened token), rest⟩
          (chosen.opened token) := ⟨rfl, .inl rfl, fits⟩
        obtain ⟨later, hlater, talk⟩ := talk_converse a transport offered engaged false
          (.start chosen.scheme (chosen.opening token)) s₁ (log ++ (skipped ++ prepared))
        exact ⟨_, by simpa using hlater, .begun ht hq passed fits ready talk⟩
  | some pair =>
    obtain ⟨x, c⟩ := pair
    rw [run_turn ht, run_turn ht]
    cases hcomplete : (x.challenge c).complete with
    | true => exact ⟨[], by simp, .spent ht hcomplete⟩
    | false =>
      rw [if_neg (by simp), if_neg (by simp)]
      rcases hanswer : (x.challenge c).answer none with ⟨e | reply, x'⟩
      · dsimp only
        rw [abandon_recorded, abandon_eq]
        exact ⟨_, rfl, .dropped ht hcomplete (by rw [hanswer])⟩
      · have fits := Exchange.fits_of_answer hanswer
        obtain ⟨calls, hcalls, talk⟩ := talk_converse a transport offered
          (engaged_proceed (n := n) fits) false (.answer (reply.getD "")) s log
        exact ⟨calls, hcalls, .resumed ht hcomplete hanswer talk⟩

/-- What is observed of a run is the run. -/
theorem ran (a : Authenticator σ) (transport : Transport σ ε) (offered : List Challenge)
    (n : Negotiation) (s : σ) :
    Ran a transport.ofAuth offered n (a.calls transport offered n s)
      (a.run transport offered (n, s)).1 (a.run transport offered (n, s)).2.1 := by
  obtain ⟨calls, hcalls, ran⟩ := ran_recorded a transport offered n s []
  have logged : a.calls transport offered n s = calls := by simp [Authenticator.calls, hcalls]
  rw [logged]
  exact ran

end Authenticator
end MailClient.Sasl
