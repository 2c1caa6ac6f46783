import MailClient.Proofs.Sasl.Script

/-! Passwords do not decide what an authentication does. Two runs whose candidates differ in their
passwords alone call the surroundings alike, as long as these look at no password, and come to the
same result. -/
namespace MailClient.Sasl

variable {σ ε α α' : Type}

/-! ### What differs in passwords alone -/

inductive Candidate.Alike : Candidate → Candidate → Prop where
  | refl (candidate : Candidate) : Alike candidate candidate
  | password (scheme : Scheme) (user secret secret' : String) :
      Alike ⟨scheme, .password user secret⟩ ⟨scheme, .password user secret'⟩

/-- Messages of a scheme that are the same up to the password in them. Of the answer to a challenge
it is the digest that the password is part of. -/
inductive Payload.Alike : Scheme → String → String → Prop where
  | refl (scheme : Scheme) (text : String) : Alike scheme text text
  | plain (user secret secret' : String) :
      Alike .plain (Payload.plain user secret) (Payload.plain user secret')
  | login (secret secret' : String) : Alike .login (Payload.login secret) (Payload.login secret')
  | cramMd5 (user : String) (key key' text : Bytes) :
      Alike .cramMd5 (Payload.encode (user ++ " " ++ Digest.hexText (Digest.hmac key text)))
        (Payload.encode (user ++ " " ++ Digest.hexText (Digest.hmac key' text)))

inductive Exchange.Alike : Exchange → Exchange → Prop where
  | mk {candidate candidate' : Candidate} (sent : UInt8) (pending : Option String)
      (complete : Bool) : candidate.Alike candidate' →
      Alike ⟨candidate, sent, pending, complete⟩ ⟨candidate', sent, pending, complete⟩

theorem Payload.alike_getD {scheme : Scheme} {reply reply' : Option String}
    (h : Option.Rel (Payload.Alike scheme) reply reply') :
    Payload.Alike scheme (reply.getD "") (reply'.getD "") := by
  cases h with
  | none => exact .refl scheme ""
  | some related => exact related

structure Negotiation.Alike (n n' : Negotiation) : Prop where
  phase : n'.phase = n.phase
  active : Option.Rel Exchange.Alike n.active n'.active
  queue : List.Forall₂ Candidate.Alike n.queue n'.queue

def Strategy.Alike (strategy strategy' : Strategy) : Prop :=
  ∀ host offered, List.Forall₂ Candidate.Alike (strategy host offered) (strategy' host offered)

inductive ClientMessage.Alike (scheme : Scheme) :
    (current : Option Scheme) → ClientMessage → ClientMessage → Prop where
  | start {current : Option Scheme} {initial initial' : Option String} :
      Option.Rel (Payload.Alike scheme) initial initial' →
      Alike scheme current (.start scheme initial) (.start scheme initial')
  | answer {data data' : String} : Payload.Alike scheme data data' →
      Alike scheme (some scheme) (.answer data) (.answer data')

/-- The same calls with the same answers, up to passwords in messages. Before them, `first` was the
scheme that was started last, and after them it is `current`. -/
inductive AlikeCalls (first : Option Scheme) :
    (current : Option Scheme) → List (Call ε) → List (Call ε) → Prop where
  | nil : AlikeCalls first first [] []
  | message {current : Option Scheme} {scheme : Scheme} {calls calls' : List (Call ε)}
      {message message' : ClientMessage} (answer : Except ε ServerStep) :
      AlikeCalls first current calls calls' → message.Alike scheme current message' →
      AlikeCalls first (some scheme) (calls ++ [message.call answer])
        (calls' ++ [message'.call answer])
  | same {current : Option Scheme} {calls calls' : List (Call ε)} {call : Call ε} :
      AlikeCalls first current calls calls' → call.step? = none →
      AlikeCalls first current (calls ++ [call]) (calls' ++ [call])

inductive Matched (rel : α → α' → Prop) : Except Error α → Except Error α' → Prop where
  | error (e : Error) : Matched rel (.error e) (.error e)
  | ok {a : α} {a' : α'} : rel a a' → Matched rel (.ok a) (.ok a')

namespace Candidate.Alike

variable {candidate candidate' : Candidate}

theorem scheme (h : candidate.Alike candidate') : candidate'.scheme = candidate.scheme := by
  cases h <;> rfl

theorem user (h : candidate.Alike candidate') :
    candidate'.credentials.user = candidate.credentials.user := by
  cases h <;> rfl

theorem fits (h : candidate.Alike candidate') : candidate'.fits = candidate.fits := by
  cases h with
  | refl => rfl
  | password scheme user secret secret' => cases scheme <;> rfl

/-- A password gets into messages, but neither into errors nor into whether there is a message. -/
theorem message (h : candidate.Alike candidate') (sent : UInt8) (pending token : Option String) :
    Matched (Option.Rel (Payload.Alike candidate.scheme))
      (Exchange.message candidate sent pending token)
      (Exchange.message candidate' sent pending token) := by
  cases h with
  | refl =>
    cases Exchange.message candidate sent pending token with
    | error e => exact .error e
    | ok built =>
      cases built with
      | none => exact .ok .none
      | some text => exact .ok (.some (.refl _ text))
  | password scheme user secret secret' =>
    cases scheme with
    | plain => exact .ok (.some (.plain user secret secret'))
    | login =>
      cases pending with
      | none => exact .ok .none
      | some data =>
        by_cases hs : sent = 0
        · simp only [Exchange.message, if_pos hs]
          exact .ok (.some (.refl _ _))
        · simp only [Exchange.message, if_neg hs]
          exact .ok (.some (.login secret secret'))
    | cramMd5 =>
      cases pending with
      | none => exact .ok .none
      | some data =>
        simp only [Exchange.message, Payload.cramMd5]
        cases Base64.decodeText data with
        | error problem => exact .error _
        | ok text => exact .ok (.some (.cramMd5 user _ _ text))
    | external => exact .ok (.some (.refl _ _))
    | xoauth2 | oauthBearer => exact .error _

end Candidate.Alike

namespace Exchange.Alike

variable {x x' : Exchange}

theorem candidate (h : x.Alike x') : x.candidate.Alike x'.candidate := by
  cases h with
  | mk _ _ _ h => exact h

theorem scheme (h : x.Alike x') : x'.scheme = x.scheme := h.candidate.scheme

theorem challenge (h : x.Alike x') (c : Challenge) :
    (x.challenge c).Alike (x'.challenge c) ∧
      (x'.challenge c).complete = (x.challenge c).complete := by
  cases h with
  | mk sent pending complete h =>
    unfold Exchange.challenge Exchange.scheme
    rw [h.scheme]
    split_ifs
    · exact ⟨.mk _ _ _ h, rfl⟩
    · exact ⟨.mk _ _ _ h, rfl⟩

theorem answer (h : x.Alike x') (token : Option String) :
    Matched (Option.Rel (Payload.Alike x.scheme)) (x.answer token).1 (x'.answer token).1 ∧
      (x.answer token).2.Alike (x'.answer token).2 := by
  cases h with
  | @mk candidate candidate' sent pending complete h =>
    have built := h.message sent pending token
    refine ⟨built, ?_⟩
    unfold Exchange.answer
    dsimp only
    generalize Exchange.message candidate sent pending token = r at built ⊢
    generalize Exchange.message candidate' sent pending token = r' at built ⊢
    cases built with
    | error e => exact .mk _ _ _ h
    | ok related => cases related <;> exact .mk _ _ _ h

/-- Both exchanges fail at a challenge in the same way, or both have an answer to it. -/
theorem reply (h : x.Alike x') (c : Challenge) :
    (∃ e y y', (x.challenge c).answer none = (.error e, y) ∧
      (x'.challenge c).answer none = (.error e, y')) ∨
    ∃ data data' y y', (x.challenge c).answer none = (.ok data, y) ∧
      (x'.challenge c).answer none = (.ok data', y') ∧ y.Alike y' ∧
      ClientMessage.Alike y.scheme (some x.scheme) (.answer (data.getD ""))
        (.answer (data'.getD "")) := by
  obtain ⟨matched, answered⟩ := (h.challenge c).1.answer none
  rcases hanswer : (x.challenge c).answer none with ⟨r, y⟩
  rcases hanswer' : (x'.challenge c).answer none with ⟨r', y'⟩
  rw [hanswer, hanswer', scheme_challenge] at matched
  rw [hanswer, hanswer'] at answered
  have same : y.scheme = x.scheme := congrArg Candidate.scheme (candidate_of_answer hanswer)
  cases matched with
  | error e => exact .inl ⟨e, y, y', rfl, rfl⟩
  | ok related =>
    refine .inr ⟨_, _, y, y', rfl, rfl, answered, ?_⟩
    rw [same]
    exact .answer (Payload.alike_getD related)

end Exchange.Alike

namespace Strategy

variable {candidates candidates' : List Candidate}

theorem alike_inOrder (h : List.Forall₂ Candidate.Alike candidates candidates') :
    Alike (inOrder candidates) (inOrder candidates') := by
  intro host offered
  refine List.rel_filter ?_ h
  intro candidate candidate' same
  dsimp only
  rw [same.scheme]

/-- Candidates are ranked by their schemes alone. -/
theorem alike_strongestFirst (h : List.Forall₂ Candidate.Alike candidates candidates') :
    Alike (strongestFirst candidates) (strongestFirst candidates') := by
  intro host offered
  have usable := alike_inOrder h host offered
  unfold strongestFirst
  generalize inOrder candidates host offered = l at usable ⊢
  generalize inOrder candidates' host offered = l' at usable ⊢
  obtain ⟨length, same⟩ := List.forall₂_iff_zip.mp usable
  -- Both orders are the order of the pairs.
  let pairs := (l.zip l').mergeSort fun p q => q.1.scheme.strength ≤ p.1.scheme.strength
  have sorted (f : Candidate × Candidate → Candidate)
      (hf : ∀ p ∈ l.zip l', (f p).scheme = p.1.scheme) : pairs.map f =
        ((l.zip l').map f).mergeSort fun a b => b.scheme.strength ≤ a.scheme.strength := by
    refine List.map_mergeSort fun p hp q hq => ?_
    rw [hf p hp, hf q hq]
  have left := sorted Prod.fst fun _ _ => rfl
  have right := sorted Prod.snd fun p hp => (same hp).scheme
  rw [List.map_fst_zip (Nat.le_of_eq length)] at left
  rw [List.map_snd_zip (Nat.le_of_eq length.symm)] at right
  rw [← left, ← right, List.forall₂_map_left_iff, List.forall₂_map_right_iff, List.forall₂_same]
  intro p hp
  exact same (List.mem_mergeSort.mp hp)

end Strategy

/-! ### Surroundings -/

/-- A transport that makes the same of messages that are the same up to passwords. -/
structure Transport.Blind (transport : Transport σ ε) : Prop where
  start {scheme initial initial'} : Option.Rel (Payload.Alike scheme) initial initial' →
    transport.start scheme initial' = transport.start scheme initial
  respond {scheme data data'} : Payload.Alike scheme data data' →
    transport.respond data' = transport.respond data

/-- A script looks at no message at all. -/
theorem Script.blind {τ : Type} :
    (Script.transport : Transport (List ServerStep × τ) Fault).Blind where
  start _ := rfl
  respond _ := rfl

inductive Together (first : Option Scheme) (rel : α → α' → Prop) (current : Option Scheme) :
    α × σ × List (Call ε) → α' × σ × List (Call ε) → Prop where
  | mk {a : α} {a' : α'} {s : σ} {log log' : List (Call ε)} : rel a a' →
      AlikeCalls first current log log' → Together first rel current (a, s, log) (a', s, log')

variable {first current : Option Scheme} {log log' : List (Call ε)} {transport : Transport σ ε}
  {candidate candidate' : Candidate} {n n' : Negotiation} {x x' : Exchange}

theorem Transport.Blind.send (hb : transport.Blind) {scheme : Scheme}
    {message message' : ClientMessage} (hm : message.Alike scheme current message') (s : σ)
    (hl : AlikeCalls first current log log') :
    Together first Eq (some scheme) (Authenticator.send transport.recorded message (s, log))
      (Authenticator.send transport.recorded message' (s, log')) := by
  have same : Authenticator.send transport message' s = Authenticator.send transport message s := by
    cases hm with
    | start related => exact congrFun (hb.start related) s
    | answer related => exact congrFun (hb.respond related) s
  rw [Authenticator.send_recorded, Authenticator.send_recorded, same]
  exact .mk rfl (.message _ hl hm)

theorem together_abandon (transport : Transport σ ε) (why : Error) (s : σ)
    (hl : AlikeCalls first current log log') :
    Together first Eq current (Authenticator.abandon transport.recorded why (s, log))
      (Authenticator.abandon transport.recorded why (s, log')) := by
  rw [Authenticator.abandon_recorded, Authenticator.abandon_recorded]
  exact .mk rfl (.same hl rfl)

namespace Negotiation

structure Opened (scheme : Scheme) (p p' : Option String × Exchange) : Prop where
  initial : Option.Rel (Payload.Alike scheme) p.1 p'.1
  exchange : p.2.Alike p'.2
  scheme : p.2.scheme = scheme
  fits : p.2.candidate.fits = true

theorem matched_start (h : candidate.Alike candidate') (token : Option String) :
    Matched (Opened candidate.scheme)
      (match (Exchange.start candidate).answer token with
        | (.ok initial, x) => .ok (initial, x)
        | (.error e, _) => .error e)
      (match (Exchange.start candidate').answer token with
        | (.ok initial, x) => .ok (initial, x)
        | (.error e, _) => .error e) := by
  have started : (Exchange.start candidate).Alike (Exchange.start candidate') := .mk 0 none false h
  obtain ⟨matched, related⟩ := started.answer token
  have scheme : ((Exchange.start candidate).answer token).2.scheme = candidate.scheme := rfl
  have fits {r : Option String} {y : Exchange}
      (ha : (Exchange.start candidate).answer token = (.ok r, y)) : y.candidate.fits = true :=
    Exchange.fits_of_answer ha
  generalize (Exchange.start candidate).answer token = p at matched related scheme fits ⊢
  generalize (Exchange.start candidate').answer token = p' at matched related ⊢
  obtain ⟨r, y⟩ := p
  obtain ⟨r', y'⟩ := p'
  cases matched with
  | error e => exact .error e
  | ok initial => exact .ok ⟨initial, related, scheme, fits rfl⟩

theorem together_openExchange (tokens : TokenProvider σ) (limit : Duration)
    (h : candidate.Alike candidate') (s : σ) (hl : AlikeCalls first current log log') :
    Together first (Matched (Opened candidate.scheme)) current
      (openExchange (tokens.recorded ε) limit candidate (s, log))
      (openExchange (tokens.recorded ε) limit candidate' (s, log')) := by
  let asked : Call ε := .get candidate.credentials.user limit
    (tokens.get candidate.credentials.user limit s).1
  have got (log : List (Call ε)) :
      (tokens.recorded ε).get candidate.credentials.user limit (s, log) =
        ((tokens.get candidate.credentials.user limit s).1,
          (tokens.get candidate.credentials.user limit s).2, log ++ [asked]) := rfl
  have called : AlikeCalls first current (log ++ [asked]) (log' ++ [asked]) := .same hl rfl
  unfold openExchange
  dsimp only
  rw [h.scheme, h.user, got, got]
  split_ifs
  · rcases tokens.get candidate.credentials.user limit s with ⟨e | token, s'⟩
    · exact .mk (.error e) called
    · exact .mk (matched_start h (some token)) called
  · exact .mk (matched_start h none) hl

inductive Chosen : Option (Option String × Exchange × List Candidate) →
    Option (Option String × Exchange × List Candidate) → Prop where
  | none : Chosen none none
  | some {initial initial' x x' rest rest'} : Opened x.scheme (initial, x) (initial', x') →
      List.Forall₂ Candidate.Alike rest rest' →
      Chosen (some (initial, x, rest)) (some (initial', x', rest'))

theorem together_openFirst (tokens : TokenProvider σ) (limit : Duration)
    {queue queue' : List Candidate} (h : List.Forall₂ Candidate.Alike queue queue') (s : σ)
    (hl : AlikeCalls first current log log') :
    Together first Chosen current (openFirst (tokens.recorded ε) limit queue (s, log))
      (openFirst (tokens.recorded ε) limit queue' (s, log')) := by
  induction h generalizing s log log' with
  | nil => exact .mk .none hl
  | cons same later ih =>
    have opened := together_openExchange tokens limit same s hl
    rw [openFirst, openFirst]
    generalize openExchange (tokens.recorded ε) limit _ (s, log) = p at opened ⊢
    generalize openExchange (tokens.recorded ε) limit _ (s, log') = p' at opened ⊢
    cases opened with
    | mk matched hl =>
      cases matched with
      | error e => exact ih _ hl
      | @ok a a' ready =>
        obtain ⟨initial, x⟩ := a
        obtain ⟨initial', x'⟩ := a'
        refine .mk (.some ?_ later) hl
        rw [show x.scheme = _ from ready.scheme]
        exact ready

end Negotiation

/-! ### Exchanges -/

theorem Negotiation.active_of_turn? {offered : List Challenge} {c : Challenge}
    (h : n.turn? offered = some (x, c)) : n.active = some x := by
  unfold turn? at h
  split_ifs at h
  obtain ⟨y, active, found⟩ := Option.bind_eq_some_iff.mp h
  obtain ⟨c', -, same⟩ := Option.map_eq_some_iff.mp found
  cases same
  exact active

namespace Negotiation.Alike

theorem proceed (h : n.Alike n') (hx : x.Alike x') : (n.proceed x).Alike (n'.proceed x') :=
  ⟨rfl, .some hx, h.queue⟩

theorem renew (h : n.Alike n') (hx : x.Alike x') : (n.renew x).Alike (n'.renew x') :=
  ⟨rfl, .some hx, h.queue⟩

theorem turn? (h : n.Alike n') (offered : List Challenge) :
    Option.Rel (fun p p' => p.1.Alike p'.1 ∧ p'.2 = p.2) (n.turn? offered) (n'.turn? offered) := by
  unfold Negotiation.turn?
  rw [h.phase]
  split_ifs
  · have active := h.active
    generalize n.active = o at active ⊢
    generalize n'.active = o' at active ⊢
    cases active with
    | none => exact .none
    | @some x x' hx =>
      rw [Option.bind_some, Option.bind_some, hx.scheme]
      cases offered.find? fun c => c.scheme == x.scheme with
      | none => exact .none
      | some c => exact .some ⟨hx, rfl⟩
  · exact .none

theorem succeed (h : n.Alike n') : n.succeed.Alike n'.succeed := ⟨rfl, h.active, .nil⟩

theorem failed : Negotiation.failed.Alike .failed := ⟨rfl, .none, .nil⟩

theorem fresh : Negotiation.fresh.Alike .fresh := ⟨rfl, .none, .nil⟩

end Negotiation.Alike

inductive Ended (first : Option Scheme) :
    Except ε Outcome × Negotiation × σ × List (Call ε) →
      Except ε Outcome × Negotiation × σ × List (Call ε) → Prop where
  | mk {current : Option Scheme} {r : Except ε Outcome} {n n' : Negotiation} {s : σ}
      {log log' : List (Call ε)} : n.Alike n' → AlikeCalls first current log log' →
      Ended first (r, n, s, log) (r, n', s, log')

theorem Ended.parts {p p' : Except ε Outcome × Negotiation × σ × List (Call ε)}
    (h : Ended first p p') : p'.1 = p.1 ∧ p.2.1.Alike p'.2.1 ∧ p'.2.2.1 = p.2.2.1 ∧
      ∃ current, AlikeCalls first current p.2.2.2 p'.2.2.2 := by
  cases h with
  | mk alike calls => exact ⟨rfl, alike, rfl, _, calls⟩

namespace Authenticator

open Negotiation (Engaged)

theorem ended_abandon (transport : Transport σ ε) (why : Error) (s : σ)
    (hl : AlikeCalls first current log log') :
    Ended first
      (let (r, s) := abandon transport.recorded why (s, log); (r, Negotiation.failed, s))
      (let (r, s) := abandon transport.recorded why (s, log'); (r, Negotiation.failed, s)) := by
  have given := together_abandon transport why s hl
  generalize abandon transport.recorded why (s, log) = p at given ⊢
  generalize abandon transport.recorded why (s, log') = p' at given ⊢
  cases given with
  | mk same hl =>
    subst same
    exact .mk .failed hl

theorem ended_converse (a : Authenticator σ) (strategy : Strategy) (hb : transport.Blind)
    (offered : List Challenge) (h : Engaged n x) (h' : Engaged n' x') (hn : n.Alike n')
    (hx : x.Alike x') (refreshed : Bool) {message message' : ClientMessage}
    (hm : message.Alike x.scheme current message') (s : σ)
    (hl : AlikeCalls first current log log') :
    Ended first
      ((a.recorded ε).converse transport.recorded offered refreshed message n (s, log))
      (({ a with strategy := strategy }.recorded ε).converse transport.recorded offered refreshed
        message' n' (s, log')) := by
  -- Each answer leaves fewer turns, and a fresh token, of which there is one, at most two.
  induction hk : (if refreshed then 0 else 3) + (x.scheme.turns - x.sent.toNat) using
    Nat.strongRecOn generalizing refreshed n n' x x' message message' s log log' current with
  | ind k ih =>
    have sent := hb.send hm s hl
    rw [converse_engaged h, converse_engaged h']
    generalize send transport.recorded message (s, log) = p at sent ⊢
    generalize send transport.recorded message' (s, log') = p' at sent ⊢
    cases sent with
    | @mk step _ s₁ log₁ log₁' same hl =>
    subst same
    rcases step with e | data | _ | why
    · exact .mk hn hl
    · dsimp only
      rw [hx.scheme, (hx.challenge _).2]
      cases hcomplete : (x.challenge (.turn x.scheme data)).complete with
      | true =>
        rw [if_pos rfl, if_pos rfl]
        exact ended_abandon transport _ s₁ hl
      | false =>
        rw [if_neg (by simp), if_neg (by simp)]
        rcases hx.reply (.turn x.scheme data) with
          ⟨e, y, y', ha, ha'⟩ | ⟨reply, reply', y, y', ha, ha', answered, next⟩
        · rw [ha, ha']
          exact ended_abandon transport e s₁ hl
        · obtain ⟨hscheme, hlt, hsent⟩ := Negotiation.sent_lt_of_answer hcomplete ha
          have fewer : (if refreshed then 0 else 3) + (y.scheme.turns - y.sent.toNat) < k := by
            rw [← hk, hscheme, hsent]
            omega
          rw [ha, ha']
          exact ih _ fewer (engaged_proceed (Exchange.fits_of_answer ha))
            (engaged_proceed (Exchange.fits_of_answer ha')) (hn.proceed answered) answered
            refreshed next s₁ hl rfl
    · rw [hx.scheme]
      exact .mk hn.succeed hl
    · dsimp only
      rw [hx.scheme]
      by_cases hr : refreshed = false ∧ x.scheme.usesToken = true
      · rw [if_pos hr, if_pos hr]
        obtain ⟨rfl, -⟩ := hr
        have invalidated : AlikeCalls first (some x.scheme) (log₁ ++ [.invalidate x.user])
            (log₁' ++ [.invalidate x.user]) := .same hl rfl
        have opened := Negotiation.together_openExchange a.tokens a.limit hx.candidate
          (a.tokens.invalidate x.user s₁) invalidated
        rw [show x'.user = x.user from hx.candidate.user]
        change Together first _ _
          (Negotiation.openExchange (a.recorded ε).tokens (a.recorded ε).limit x.candidate
            ((a.recorded ε).tokens.invalidate x.user (s₁, log₁)))
          (Negotiation.openExchange ({ a with strategy := strategy }.recorded ε).tokens
            ({ a with strategy := strategy }.recorded ε).limit x'.candidate
            (({ a with strategy := strategy }.recorded ε).tokens.invalidate x.user (s₁, log₁')))
          at opened
        generalize Negotiation.openExchange (a.recorded ε).tokens _ _ _ = p at opened ⊢
        generalize Negotiation.openExchange ({ a with strategy := strategy }.recorded ε).tokens
          _ _ _ = p' at opened ⊢
        cases opened with
        | mk matched hl =>
          cases matched with
          | error e => exact .mk .failed hl
          | @ok b b' ready =>
            obtain ⟨initial, y⟩ := b
            obtain ⟨initial', y'⟩ := b'
            have fewer : (if true then 0 else 3) + (y.scheme.turns - y.sent.toNat) < k := by
              have few := Negotiation.turns_le_two y.scheme
              rw [← hk]
              simp
              omega
            have fits' : y'.candidate.fits = true := ready.exchange.candidate.fits.trans ready.fits
            have next : ClientMessage.Alike y.scheme (some x.scheme) (.start x.scheme initial)
                (.start x.scheme initial') := by
              rw [show y.scheme = x.scheme from ready.scheme]
              exact .start ready.initial
            exact ih _ fewer (engaged_renew ready.fits) (engaged_renew fits')
              (hn.renew ready.exchange) ready.exchange true next _ hl rfl
      · rw [if_neg hr, if_neg hr]
        exact .mk .failed hl

/-- What a run makes of an offer is decided by what stays the same. -/
theorem ended_run (a : Authenticator σ) {strategy : Strategy} (hs : a.strategy.Alike strategy)
    (hb : transport.Blind) (offered : List Challenge) (hn : n.Alike n') (s : σ)
    (hl : AlikeCalls first (n.active.map (·.scheme)) log log') :
    Ended first
      ((a.recorded ε).run transport.recorded offered (n, s, log))
      (({ a with strategy := strategy }.recorded ε).run transport.recorded offered
        (n', s, log')) := by
  by_cases ho : offered = []
  · subst ho
    exact .mk hn hl
  by_cases hp : n.phase = .failure
  · rw [run_closed ho hp, run_closed ho (hn.phase.trans hp)]
    exact .mk hn hl
  have hp' : n'.phase ≠ .failure := fun failed => hp (hn.phase.symm.trans failed)
  have turns := hn.turn? offered
  cases ht : n.turn? offered with
  | none =>
    rw [ht] at turns
    cases ht' : n'.turn? offered with
    | some => simp [ht'] at turns
    | none =>
      have chosen := Negotiation.together_openFirst a.tokens a.limit (hs a.host offered) s hl
      rw [run_select ho hp ht, run_select ho hp' ht']
      change Together first _ _ (Negotiation.openFirst (a.recorded ε).tokens (a.recorded ε).limit
        ((a.recorded ε).strategy (a.recorded ε).host offered) (s, log)) (Negotiation.openFirst
        ({ a with strategy := strategy }.recorded ε).tokens
        ({ a with strategy := strategy }.recorded ε).limit
        (({ a with strategy := strategy }.recorded ε).strategy
          ({ a with strategy := strategy }.recorded ε).host offered) (s, log')) at chosen
      generalize Negotiation.openFirst (a.recorded ε).tokens _ _ _ = p at chosen ⊢
      generalize Negotiation.openFirst ({ a with strategy := strategy }.recorded ε).tokens
        _ _ _ = p' at chosen ⊢
      cases chosen with
      | mk chosen hl =>
        cases chosen with
        | none => exact .mk .failed hl
        | @some initial initial' x x' rest rest' ready later =>
          have exchange : x.Alike x' := ready.exchange
          have engaged : Engaged ⟨.challenged, some x, rest⟩ x := ⟨rfl, .inl rfl, ready.fits⟩
          have engaged' : Engaged ⟨.challenged, some x', rest'⟩ x' :=
            ⟨rfl, .inl rfl, exchange.candidate.fits.trans ready.fits⟩
          have first : ClientMessage.Alike x.scheme (n.active.map (·.scheme))
              (.start x.scheme initial) (.start x'.scheme initial') := by
            rw [exchange.scheme]
            exact .start ready.initial
          exact ended_converse a strategy hb offered engaged engaged' ⟨rfl, .some exchange, later⟩
            exchange false first _ hl
  | some pair =>
    obtain ⟨x, c⟩ := pair
    rw [ht] at turns
    cases ht' : n'.turn? offered with
    | none => simp [ht'] at turns
    | some pair' =>
      obtain ⟨x', c'⟩ := pair'
      rw [ht', Option.rel_some_some] at turns
      obtain ⟨hx, rfl⟩ : x.Alike x' ∧ c' = c := turns
      rw [run_turn ht, run_turn ht', (hx.challenge c').2]
      cases hcomplete : (x.challenge c').complete with
      | true =>
        rw [if_pos rfl, if_pos rfl]
        exact .mk .failed hl
      | false =>
        rw [if_neg (by simp), if_neg (by simp)]
        rcases hx.reply c' with
          ⟨e, y, y', ha, ha'⟩ | ⟨reply, reply', y, y', ha, ha', answered, next⟩
        · rw [ha, ha']
          exact ended_abandon transport e s hl
        · rw [Negotiation.active_of_turn? ht] at hl
          rw [ha, ha']
          exact ended_converse a strategy hb offered (engaged_proceed (Exchange.fits_of_answer ha))
            (engaged_proceed (Exchange.fits_of_answer ha')) (hn.proceed answered) answered false
            next s hl

/-- Two runs that differ in the passwords of the candidates alone have the same result and leave
the same behind. They ask for the same tokens and send the same messages up to the passwords. -/
theorem alike_runs (a : Authenticator σ) {transport : Transport σ ε} (hb : transport.Blind)
    {strategy : Strategy} (hs : a.strategy.Alike strategy) (offered : List Challenge)
    {n n' : Negotiation} (hn : n.Alike n') (s : σ) :
    let b := { a with strategy := strategy }
    let p := a.run transport offered (n, s)
    let p' := b.run transport offered (n', s)
    p'.1 = p.1 ∧ p.2.1.Alike p'.2.1 ∧ p'.2.2 = p.2.2 ∧
      ∃ current, AlikeCalls (n.active.map (·.scheme)) current (a.calls transport offered n s)
        (b.calls transport offered n' s) := by
  intro b p p'
  have ended := ended_run a hs hb offered hn s .nil
  obtain ⟨made, same, -⟩ := a.ran_recorded transport offered n s []
  obtain ⟨made', same', -⟩ := b.ran_recorded transport offered n' s []
  have logged : a.calls transport offered n s = made := by simp [calls, same]
  have logged' : b.calls transport offered n' s = made' := by simp [calls, same']
  rw [same, same'] at ended
  rw [logged, logged']
  exact ended.parts

/-- LOGIN with two passwords, against a server that is content with any. -/
theorem alike_runs_login :
    let tokens : TokenProvider (List ServerStep × Unit) := ⟨fun _ _ s => (.ok "", s), fun _ s => s⟩
    let login (secret : String) : Authenticator (List ServerStep × Unit) :=
      ⟨"mail", .inOrder [⟨.plain, .token "u"⟩, ⟨.login, .password "u" secret⟩], tokens, 0⟩
    let offered := [Challenge.offer .plain, .offer .login]
    let script := ([ServerStep.challenge "VXNlcg==", .challenge "UGFzcw==", .success], ())
    ((login "a").run Script.transport offered (.fresh, script)).1 =
        .ok (.authenticated .login) ∧
      ((login "b").run Script.transport offered (.fresh, script)).1 =
        .ok (.authenticated .login) ∧
      ∃ current, AlikeCalls none current
        ((login "a").calls Script.transport offered .fresh script)
        ((login "b").calls Script.transport offered .fresh script) := by
  intro tokens login offered script
  have accepted : ((login "a").run Script.transport offered (.fresh, script)).1 =
      .ok (.authenticated .login) := by
    let x (sent : UInt8) : Exchange := ⟨⟨.login, .password "u" "a"⟩, sent, none, false⟩
    have begun : Negotiation.Engaged ⟨.challenged, some (x 0), []⟩ (x 0) := ⟨rfl, .inl rfl, rfl⟩
    have asked (sent : UInt8) : Negotiation.Engaged ⟨.handshake, some (x sent), []⟩ (x sent) :=
      ⟨rfl, .inr rfl, rfl⟩
    calc ((login "a").run Script.transport offered (.fresh, script)).1
      _ = ((login "a").converse Script.transport offered false (.start .login none)
            ⟨.challenged, some (x 0), []⟩ script).1 := by
        rw [run_select (List.cons_ne_nil _ _) (by decide) rfl]
        rfl
      _ = ((login "a").converse Script.transport offered false (.answer (Payload.login "u"))
            ⟨.handshake, some (x 1), []⟩ ([.challenge "UGFzcw==", .success], ())).1 := by
        rw [converse_engaged begun]
        rfl
      _ = ((login "a").converse Script.transport offered false (.answer (Payload.login "a"))
            ⟨.handshake, some (x 2), []⟩ ([.success], ())).1 := by
        rw [converse_engaged (asked 1)]
        rfl
      _ = .ok (.authenticated .login) := by
        rw [converse_engaged (asked 2)]
        rfl
  have options : Strategy.Alike (login "a").strategy (login "b").strategy :=
    Strategy.alike_inOrder (.cons (.refl _) (.cons (.password .login "u" "a" "b") .nil))
  obtain ⟨same, -, -, alike⟩ :=
    alike_runs (login "a") Script.blind options offered .fresh script
  exact ⟨accepted, same.trans accepted, alike⟩

end Authenticator
end MailClient.Sasl
