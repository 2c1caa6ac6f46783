import MailClient.Sasl.Negotiation

/-! The exchange of SASL messages over any protocol that can carry them. Each challenge uses up
a turn of the active scheme and a rejected token is replaced once, so every run ends. -/
namespace MailClient.Sasl

inductive ServerStep where
  | challenge (data : String)
  | success
  | rejected (reason : String)
  deriving DecidableEq, Repr

/-- How a protocol carries the messages. `σ` is the state of the surroundings. -/
structure Transport (σ ε : Type) where
  start : Scheme → Option String → Action σ ε ServerStep
  respond : String → Action σ ε ServerStep
  cancel : Action σ ε Unit
  ofAuth : Error → ε

inductive Outcome where
  | authenticated (scheme : Scheme)
  | unauthenticated
  deriving DecidableEq, Repr

def defaultTokenLimit : Duration := Duration.seconds 30

structure Authenticator (σ : Type) where
  host : String
  strategy : Strategy
  tokens : TokenProvider σ
  limit : Duration := defaultTokenLimit

def offeredNames (offered : List Challenge) : String :=
  String.intercalate " " (offered.map (·.scheme.name))

namespace Negotiation

/-- Turns that the active exchange still has; a negotiation that would select again has more than
any exchange. -/
def turnsLeft (n : Negotiation) : Nat :=
  let turns := match n.active with
    | some x => x.scheme.turns - x.sent.toNat
    | none => 0
  if n.phase = .challenged ∨ n.phase = .handshake then turns else turns + 3

/-- An answer to a challenge is a message, if it is not an error. -/
theorem isSome_of_message_eq_ok {candidate : Candidate} {sent : UInt8} {data : String}
    {r : Option String} (h : Exchange.message candidate sent (some data) none = .ok r) :
    r.isSome := by
  obtain ⟨scheme, credentials⟩ := candidate
  cases scheme <;> cases credentials <;>
    simp only [Exchange.message, Except.ok.injEq, reduceCtorEq] at h <;>
    first
    | (subst h; rfl)
    | skip
  generalize Payload.cramMd5 _ _ _ = p at h
  cases p
  · simp only [Except.map, reduceCtorEq] at h
  · simp only [Except.map, Except.ok.injEq] at h
    subst h
    rfl

theorem turns_le_two (s : Scheme) : s.turns ≤ 2 := by
  cases s <;> simp [Scheme.turns]

theorem sent_lt_of_answer {x x' : Exchange} {c : Challenge} {r : Option String}
    (hc : (x.challenge c).complete = false) (h : (x.challenge c).answer none = (.ok r, x')) :
    x'.scheme = x.scheme ∧ x.sent.toNat < x.scheme.turns ∧ x'.sent.toNat = x.sent.toNat + 1 := by
  unfold Exchange.challenge at hc h
  split at h
  next hle => simp [hle] at hc
  next hlt =>
    have hlt : x.sent.toNat < x.scheme.turns := Nat.lt_of_not_le hlt
    simp only [Exchange.answer, Prod.mk.injEq] at h
    obtain ⟨hr, rfl⟩ := h
    obtain ⟨m, rfl⟩ := Option.isSome_iff_exists.mp (isSome_of_message_eq_ok hr)
    refine ⟨rfl, hlt, ?_⟩
    have := turns_le_two x.scheme
    simp only [hr, UInt8.toNat_add, UInt8.toNat_one]
    omega

variable {σ ε : Type}

theorem active_of_openFirst {tokens : TokenProvider σ} {limit : Duration} {n n' : Negotiation}
    {s s' : σ} {m : ClientMessage} (hp : n.phase = .challenged)
    (h : next tokens limit (n, s) = (.ok (some m), n', s')) :
    n'.phase = .challenged ∧ n'.active.isSome := by
  unfold next at h
  simp only [hp] at h
  split at h
  · simp only [Prod.mk.injEq] at h
    obtain ⟨-, rfl, -⟩ := h
    exact ⟨rfl, rfl⟩
  · simp at h

theorem turnsLeft_le_two {n : Negotiation} (hp : n.phase = .challenged) : n.turnsLeft ≤ 2 := by
  unfold turnsLeft
  simp only [hp, true_or, if_true]
  split
  next x _ =>
    have := turns_le_two x.scheme
    omega
  · omega

theorem phase_of_select {host : String} {offered : List Challenge} {strategy : Strategy}
    {n n' : Negotiation} (h : select host offered strategy n = (.respond, n')) :
    n'.phase = .challenged := by
  unfold select at h
  split at h
  · simp at h
  · simp only [Prod.mk.injEq, true_and] at h
    subst h
    rfl

/-- Each answer to a challenge leaves fewer turns. -/
theorem turnsLeft_lt {host : String} {strategy : Strategy} {tokens : TokenProvider σ}
    {limit : Duration} {data : String} {n n₁ n₂ : Negotiation} {x : Exchange} {s s' : σ}
    {m : ClientMessage} (hx : n.active = some x)
    (hc : challenge host [.turn x.scheme data] strategy n = (.respond, n₁))
    (hn : next tokens limit (n₁, s) = (.ok (some m), n₂, s')) : n₂.turnsLeft < n.turnsLeft := by
  have reselected : n.phase ≠ .challenged → n.phase ≠ .handshake →
      n₁.phase = .challenged → n₂.turnsLeft < n.turnsLeft := by
    intro h1 h2 h3
    have := turnsLeft_le_two (active_of_openFirst h3 hn).1
    have : 3 ≤ n.turnsLeft := by
      unfold turnsLeft
      simp only [h1, h2, or_self, if_false]
      omega
    omega
  have advanced : (n.phase = .challenged ∨ n.phase = .handshake) →
      advance n x (.turn x.scheme data) = (.respond, n₁) → n₂.turnsLeft < n.turnsLeft := by
    intro hp ha
    unfold advance at ha
    dsimp only at ha
    split at ha
    · simp at ha
    next hcomplete =>
      simp only [Prod.mk.injEq, true_and] at ha
      subst ha
      unfold next at hn
      dsimp only at hn
      split at hn
      next data' x' hanswer =>
        simp only [Prod.mk.injEq] at hn
        obtain ⟨-, rfl, -⟩ := hn
        obtain ⟨hs, hlt, hsent⟩ := sent_lt_of_answer (by simpa using hcomplete) hanswer
        unfold turnsLeft
        simp only [hp, hx, or_true, if_true, hs, hsent]
        omega
      · simp at hn
  unfold challenge at hc
  simp only [List.isEmpty_cons, Bool.false_eq_true, if_false, hx] at hc
  have found : ([Challenge.turn x.scheme data].find? fun c => c.scheme == x.scheme) =
      some (.turn x.scheme data) := by
    simp [Challenge.turn]
  cases hp : n.phase with
  | failure => simp [hp] at hc
  | unchallenged =>
    simp only [hp] at hc
    exact reselected (by simp [hp]) (by simp [hp]) (phase_of_select hc)
  | success =>
    simp only [hp] at hc
    exact reselected (by simp [hp]) (by simp [hp]) (phase_of_select hc)
  | challenged =>
    simp only [hp, found] at hc
    exact advanced (.inl hp) hc
  | handshake =>
    simp only [hp, found] at hc
    exact advanced (.inr hp) hc

end Negotiation

namespace Authenticator

variable {σ ε : Type}

def send (transport : Transport σ ε) : ClientMessage → Action σ ε ServerStep
  | .start scheme initial => transport.start scheme initial
  | .answer data => transport.respond data

/-- Ends an exchange that the client gives up, and fails with `e`. -/
def abandon (transport : Transport σ ε) (e : Error) : Action σ ε Outcome := do
  transport.cancel
  Action.fail (transport.ofAuth e)

def converse (a : Authenticator σ) (transport : Transport σ ε) (offered : List Challenge)
    (refreshed : Bool) (message : ClientMessage) (n : Negotiation) (s : σ) :
    Except ε Outcome × Negotiation × σ :=
  match send transport message s with
  | (.error e, s) => (.error e, n, s)
  | (.ok .success, s) =>
    match n.active with
    | some x => (.ok (.authenticated x.scheme), n.succeed, s)
    | none => (.error (transport.ofAuth .alreadyFailed), n.succeed, s)
  | (.ok (.rejected reason), s) =>
    match refreshed, n.active.filter (·.scheme.usesToken) with
    | false, some x =>
      match Negotiation.refresh a.tokens a.limit (n, a.tokens.invalidate x.user s) with
      | (.ok message, n, s) => converse a transport offered true message n s
      | (.error e, n, s) => (.error (transport.ofAuth e), n, s)
    | _, _ => (.error (transport.ofAuth (.rejected reason)), n.fail, s)
  | (.ok (.challenge data), s) =>
    match hx : n.active with
    | none => (.error (transport.ofAuth .alreadyFailed), n, s)
    | some x =>
      match hc : n.challenge a.host [.turn x.scheme data] a.strategy with
      | (.respond, n₁) =>
        match hn : Negotiation.next a.tokens a.limit (n₁, s) with
        | (.ok (some message), n₂, s) =>
          have := Negotiation.turnsLeft_lt hx hc hn
          converse a transport offered refreshed message n₂ s
        | (.ok none, n₂, s) =>
          (.error (transport.ofAuth (.noUsableOption (offeredNames offered))), n₂, s)
        | (.error e, n₂, s) =>
          let (r, s) := abandon transport e s
          (r, n₂, s)
      | (_, n₁) =>
        let stuck := .rejected (x.scheme.name ++ " exchange did not converge")
        let (r, s) := abandon transport stuck s
        (r, n₁, s)
termination_by (if refreshed then 0 else 1, n.turnsLeft)
decreasing_by
  · exact Prod.Lex.left _ _ (by simp_all)
  · exact Prod.Lex.right _ this

def run (a : Authenticator σ) (transport : Transport σ ε) (offered : List Challenge) :
    Action (Negotiation × σ) ε Outcome := fun (n, s) =>
  let unusable := transport.ofAuth (.noUsableOption (offeredNames offered))
  match n.challenge a.host offered a.strategy with
  | (.noChallenge, n) => (.ok .unauthenticated, n, s)
  | (.refused, n) => (.error unusable, n, s)
  | (.respond, n) =>
    match Negotiation.next a.tokens a.limit (n, s) with
    | (.ok (some message), n, s) => a.converse transport offered false message n s
    | (.ok none, n, s) => (.error unusable, n, s)
    | (.error e, n, s) =>
      let (r, s) := abandon transport e s
      (r, n, s)

end Authenticator
end MailClient.Sasl
