import MailClient.Proofs.Sasl.Calls

/-! The operations on a negotiation in any order, with any strategies, challenges and token
providers. What holds in every state that they lead to is an invariant of the negotiation and of
its active exchange, in which a challenge only waits where there is a turn left to answer it. -/
namespace MailClient.Sasl

namespace Scheme

def conversing : List Scheme := [.login, .cramMd5, .xoauth2, .oauthBearer]

theorem turns_eq (s : Scheme) :
    s.turns = if s = .plain ∨ s = .external ∨ s = .cramMd5 then 1 else 2 := by
  cases s <;> rfl

theorem turns_pos (s : Scheme) : 0 < s.turns := by
  rw [turns_eq]
  split <;> omega

theorem turns_of_not_conversing {s : Scheme} (h : s ∉ conversing) : s.turns = 1 := by
  cases s with
  | plain | external => rfl
  | _ => exact absurd (by decide) h

end Scheme

/-! ### The active exchange -/

namespace Exchange

structure Open (x : Exchange) : Prop where
  unfinished : x.complete = false
  sent_le : x.sent.toNat ≤ x.scheme.turns
  pending_lt : x.pending.isSome = true → x.sent.toNat < x.scheme.turns
  spoken : x.scheme ∉ Scheme.conversing → x.sent = 1

variable {x x' : Exchange} {candidate : Candidate} {token : Option String}

theorem opening_isSome (hf : candidate.fits = true)
    (hs : candidate.scheme ∉ Scheme.conversing) : (candidate.opening token).isSome = true := by
  obtain ⟨scheme, credentials⟩ := candidate
  cases scheme with
  | plain =>
    cases credentials with
    | password user secret => rfl
    | token user => cases hf
    | certificate user => cases hf
  | external => rfl
  | _ => simp [Scheme.conversing] at hs

theorem open_opened (hf : candidate.fits = true) : (candidate.opened token).Open := by
  have turns := Scheme.turns_pos candidate.scheme
  constructor
  · rfl
  · show (if (candidate.opening token).isSome then (1 : UInt8) else 0).toNat ≤ _
    split
    · exact turns
    · exact Nat.zero_le _
  · intro pending
    cases pending
  · intro hs
    exact if_pos (opening_isSome hf hs)

/-- Only a scheme that goes on takes a challenge without being complete. -/
theorem Open.challenge {c : Challenge} (h : x.Open) (hc : (x.challenge c).complete = false) :
    (x.challenge c).Open ∧ x.scheme ∈ Scheme.conversing := by
  unfold Exchange.challenge at hc ⊢
  split at hc
  next => cases hc
  next hlt =>
    rw [if_neg hlt]
    refine ⟨⟨h.unfinished, h.sent_le, fun _ => Nat.lt_of_not_le hlt, h.spoken⟩, ?_⟩
    by_cases hs : x.scheme ∈ Scheme.conversing
    · exact hs
    · rw [Scheme.turns_of_not_conversing hs, h.spoken hs] at hlt
      exact absurd (Nat.le_refl 1) hlt

/-- Without a token at hand, a message is the answer to a challenge. -/
theorem pending_of_message {sent : UInt8} {pending : Option String} {m : String}
    (hs : candidate.scheme ∈ Scheme.conversing)
    (h : message candidate sent pending none = .ok (some m)) : pending.isSome = true := by
  cases pending with
  | some data => rfl
  | none =>
    obtain ⟨scheme, credentials⟩ := candidate
    cases scheme with
    | plain | external => simp [Scheme.conversing] at hs
    | _ => cases credentials <;> cases h

theorem Open.answer {r : Option String} (h : x.Open) (hs : x.scheme ∈ Scheme.conversing)
    (ha : x.answer none = (.ok r, x')) : x'.Open ∧ x'.scheme = x.scheme := by
  obtain ⟨built, rfl⟩ := Prod.mk.inj ha
  have few := Negotiation.turns_le_two x.scheme
  refine ⟨⟨h.unfinished, ?_, nofun, fun other => absurd hs other⟩, rfl⟩
  dsimp only
  rw [built]
  change _ ≤ x.scheme.turns
  cases r with
  | none => exact h.sent_le
  | some m =>
    have left := h.pending_lt (pending_of_message hs built)
    simp only [UInt8.toNat_add, UInt8.toNat_one]
    omega

/-- A further message is counted as one more. -/
theorem Open.sent_succ (h : x.Open) : (x.sent + 1).toNat = x.sent.toNat + 1 := by
  have few := Negotiation.turns_le_two x.scheme
  have sent := h.sent_le
  simp only [UInt8.toNat_add, UInt8.toNat_one]
  omega

end Exchange

/-! ### The invariant -/

namespace Negotiation

variable {σ : Type} {n : Negotiation} {x : Exchange}

structure Sound (n : Negotiation) : Prop where
  idle : n.phase = .unchallenged ∨ n.phase = .failure → n.active = none ∧ n.queue = []
  success : n.phase = .success → n.queue = []
  handshake : n.phase = .handshake → ∃ x, n.active = some x ∧ x.scheme ∈ Scheme.conversing
  active : ∀ x, n.active = some x → x.Open

theorem sound_fresh : fresh.Sound := by
  constructor
  · intro _
    exact ⟨rfl, rfl⟩
  · intro hp
    cases hp
  · intro hp
    cases hp
  · intro x hx
    cases hx

theorem sound_failed : failed.Sound := by
  constructor
  · intro _
    exact ⟨rfl, rfl⟩
  · intro hp
    cases hp
  · intro hp
    cases hp
  · intro x hx
    cases hx

/-- In failure nothing is left. -/
theorem Sound.eq_failed (h : n.Sound) (hp : n.phase = .failure) : n = failed := by
  obtain ⟨phase, active, queue⟩ := n
  obtain rfl : phase = .failure := hp
  obtain ⟨rfl, rfl⟩ := h.idle (.inr rfl)
  rfl

theorem Sound.succeed (h : n.Sound) : n.succeed.Sound := by
  constructor
  · rintro (hp | hp) <;> cases hp
  · intro _
    rfl
  · intro hp
    cases hp
  · exact h.active

/-- Any queue may wait for an exchange to be opened. -/
theorem sound_challenged (ha : ∀ x, n.active = some x → x.Open) (hp : n.phase = .challenged) :
    n.Sound := by
  constructor
  · rintro (h | h) <;> cases hp.symm.trans h
  · intro h
    cases hp.symm.trans h
  · intro h
    cases hp.symm.trans h
  · exact ha

theorem sound_handshake (hx : x.Open) (hs : x.scheme ∈ Scheme.conversing)
    (hp : n.phase = .handshake) (ha : n.active = some x) : n.Sound := by
  constructor
  · rintro (h | h) <;> cases hp.symm.trans h
  · intro h
    cases hp.symm.trans h
  · intro _
    exact ⟨x, ha, hs⟩
  · intro x' hx'
    cases ha.symm.trans hx'
    exact hx

theorem sound_select (host : String) (offered : List Challenge) (strategy : Strategy)
    (ha : ∀ x, n.active = some x → x.Open) : (n.select host offered strategy).2.Sound := by
  unfold select
  split
  · exact sound_failed
  · exact sound_challenged ha rfl

theorem sound_advance {c : Challenge} (hx : x.Open) : (n.advance x c).2.Sound := by
  unfold advance
  by_cases hc : (x.challenge c).complete = true
  · simp only [hc, if_true]
    exact sound_failed
  · have unfinished : (x.challenge c).complete = false := by simpa using hc
    obtain ⟨opened, hs⟩ := hx.challenge unfinished
    simp only [hc]
    exact sound_handshake opened (x.scheme_challenge c ▸ hs) rfl rfl

theorem Sound.challenge (h : n.Sound) (host : String) (offered : List Challenge)
    (strategy : Strategy) : (n.challenge host offered strategy).2.Sound := by
  have reselected : (n.reset.select host offered strategy).2.Sound :=
    sound_select host offered strategy fun x hx => nomatch hx
  unfold Negotiation.challenge
  by_cases ho : offered.isEmpty = true
  · rw [if_pos ho]
    exact h
  rw [if_neg ho]
  cases hp : n.phase with
  | failure => exact h
  | unchallenged => exact sound_select host offered strategy h.active
  | success => exact reselected
  | challenged | handshake =>
    dsimp only
    split
    · exact reselected
    next x hx =>
      split
      · exact reselected
      · exact sound_advance (h.active x hx)

/-! An exchange that is opened has been opened with credentials that fit. -/

theorem open_of_openExchange {tokens : TokenProvider σ} {limit : Duration} {candidate : Candidate}
    {s s' : σ} {initial : Option String}
    (h : openExchange tokens limit candidate s = (.ok (initial, x), s')) : x.Open := by
  obtain ⟨calls, -, tried⟩ :=
    openExchange_recorded tokens limit candidate s ([] : List (Call Error))
  rw [h] at tried
  cases tried with
  | opened hf _ => exact Exchange.open_opened hf

theorem open_of_openFirst {tokens : TokenProvider σ} {limit : Duration}
    {queue rest : List Candidate} {s s' : σ} {initial : Option String}
    (h : openFirst tokens limit queue s = (some (initial, x, rest), s')) : x.Open := by
  obtain ⟨calls, -, found⟩ := openFirst_recorded tokens limit queue s ([] : List (Call Error))
  rw [h] at found
  cases found with
  | found _ hf _ => exact Exchange.open_opened hf

theorem Sound.next (h : n.Sound) (tokens : TokenProvider σ) (limit : Duration) (s : σ) :
    (next tokens limit (n, s)).2.1.Sound := by
  unfold Negotiation.next
  dsimp only
  split
  next hp =>
    split
    next initial x rest s' ho =>
      refine sound_challenged (fun x' hx => ?_) hp
      cases hx
      exact open_of_openFirst ho
    next => exact sound_failed
  next hp =>
    obtain ⟨x, hx, hs⟩ := h.handshake hp
    split
    next => exact sound_failed
    next x' hx' =>
      cases hx.symm.trans hx'
      split
      next data x'' ha =>
        obtain ⟨opened, scheme⟩ := (h.active x hx).answer hs ha
        exact sound_handshake opened (scheme ▸ hs) hp rfl
      next => exact sound_failed
  next => exact h
  next => exact h
  next => exact h

theorem sound_refresh (tokens : TokenProvider σ) (limit : Duration) (n : Negotiation) (s : σ) :
    (refresh tokens limit (n, s)).2.1.Sound := by
  unfold refresh
  dsimp only
  split
  · exact sound_failed
  · split
    next ho =>
      refine sound_challenged (fun x' hx => ?_) rfl
      cases hx
      exact open_of_openExchange ho
    next => exact sound_failed

/-! ### Operations in any order -/

inductive Operation (σ : Type) where
  | challenge (host : String) (offered : List Challenge) (strategy : Strategy)
  | next (tokens : TokenProvider σ) (limit : Duration)
  | refresh (tokens : TokenProvider σ) (limit : Duration)
  | succeed
  | fail
  | reset

inductive Reply where
  | verdict (v : Verdict)
  | message (r : Except Error (Option ClientMessage))
  | renewed (r : Except Error ClientMessage)
  | succeeded (scheme : Option Scheme)
  | done

namespace Operation

def perform : Operation σ → Negotiation × σ → Reply × Negotiation × σ
  | challenge host offered strategy, (n, s) =>
    let (v, n) := n.challenge host offered strategy
    (.verdict v, n, s)
  | next tokens limit, (n, s) =>
    let (r, n, s) := Negotiation.next tokens limit (n, s)
    (.message r, n, s)
  | refresh tokens limit, (n, s) =>
    let (r, n, s) := Negotiation.refresh tokens limit (n, s)
    (.renewed r, n, s)
  | succeed, (n, s) => (.succeeded (n.active.map (·.scheme)), n.succeed, s)
  | fail, (n, s) => (.done, n.fail, s)
  | reset, (n, s) => (.done, n.reset, s)

def run : List (Operation σ) → Negotiation × σ → List Reply × Negotiation × σ
  | [], p => ([], p)
  | op :: ops, p =>
    let (reply, p) := op.perform p
    let (replies, p) := run ops p
    (reply :: replies, p)

def reopens : Operation σ → Bool
  | succeed | reset => true
  | _ => false

def refusal : Operation σ → Reply
  | challenge _ offered _ => .verdict (if offered.isEmpty then .noChallenge else .refused)
  | next .. => .message (.ok none)
  | refresh .. => .renewed (.error .alreadyFailed)
  | succeed => .succeeded none
  | fail | reset => .done

def recorded : Operation σ → Operation (σ × List (Call Error))
  | challenge host offered strategy => challenge host offered strategy
  | next tokens limit => next (tokens.recorded Error) limit
  | refresh tokens limit => refresh (tokens.recorded Error) limit
  | succeed => succeed
  | fail => fail
  | reset => reset

def requests (ops : List (Operation σ)) (n : Negotiation) (s : σ) : List (Call Error) :=
  (run (ops.map recorded) (n, s, [])).2.2.2

theorem sound_perform (op : Operation σ) (h : n.Sound) (s : σ) : (op.perform (n, s)).2.1.Sound := by
  cases op with
  | challenge host offered strategy => exact h.challenge host offered strategy
  | next tokens limit => exact h.next tokens limit s
  | refresh tokens limit => exact sound_refresh tokens limit n s
  | succeed => exact h.succeed
  | fail => exact sound_failed
  | reset => exact sound_fresh

theorem sound_run (ops : List (Operation σ)) (h : n.Sound) (s : σ) :
    (run ops (n, s)).2.1.Sound := by
  induction ops generalizing n s with
  | nil => exact h
  | cons op ops ih => exact ih (sound_perform op h s) _

theorem perform_failed (op : Operation σ) (s : σ) (h : op.reopens = false) :
    op.perform (failed, s) = (op.refusal, failed, s) := by
  cases op with
  | challenge host offered strategy =>
    cases offered with
    | nil => rfl
    | cons c rest => rfl
  | next tokens limit => rfl
  | refresh tokens limit => rfl
  | succeed => cases h
  | fail => rfl
  | reset => cases h

theorem run_failed (ops : List (Operation σ)) (s : σ) (h : ∀ op ∈ ops, op.reopens = false) :
    run ops (failed, s) = (ops.map refusal, failed, s) := by
  induction ops with
  | nil => rfl
  | cons op ops ih =>
    rw [List.forall_mem_cons] at h
    simp only [run, perform_failed op s h.1, ih h.2, List.map_cons]

theorem reopens_recorded (op : Operation σ) : op.recorded.reopens = op.reopens := by
  cases op <;> rfl

theorem requests_failed (ops : List (Operation σ)) (s : σ)
    (h : ∀ op ∈ ops, op.reopens = false) : requests ops failed s = [] := by
  have recorded : ∀ op ∈ ops.map Operation.recorded, op.reopens = false := by
    intro op hop
    obtain ⟨op, ho, rfl⟩ := List.mem_map.mp hop
    rw [reopens_recorded]
    exact h op ho
  unfold requests
  rw [run_failed _ _ recorded]

/-- Whatever has been done with a negotiation, it is sound, and its counter has room for another
message. Once it has failed it refuses all and asks for no token until it is reset or told to have
succeeded. -/
theorem sound_of_operations (ops : List (Operation σ)) (s : σ) :
    let (_, n, s') := run ops (fresh, s)
    n.Sound ∧
    (∀ x, n.active = some x →
      x.complete = false ∧
      x.sent.toNat ≤
        (if x.scheme = .plain ∨ x.scheme = .external ∨ x.scheme = .cramMd5 then 1 else 2) ∧
      (x.sent + 1).toNat = x.sent.toNat + 1) ∧
    (n.phase = .failure → ∀ later : List (Operation σ), (∀ op ∈ later, op.reopens = false) →
      run later (n, s') = (later.map refusal, failed, s') ∧ requests later n s' = []) := by
  have sound := sound_run ops sound_fresh s
  generalize run ops (fresh, s) = p at sound ⊢
  obtain ⟨replies, n, s'⟩ := p
  refine ⟨sound, ?_, ?_⟩
  · intro x hx
    have opened := sound.active x hx
    rw [← Scheme.turns_eq]
    exact ⟨opened.unfinished, opened.sent_le, opened.sent_succ⟩
  · intro hp later hl
    obtain rfl : n = failed := sound.eq_failed hp
    exact ⟨run_failed later s' hl, requests_failed later s' hl⟩

end Operation
end Negotiation
end MailClient.Sasl
