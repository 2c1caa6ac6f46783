import MailClient.Proofs.Sasl.Messages
import MailClient.Proofs.Sasl.Script
import MailClient.Proofs.Wire.Script

/-! How an authentication is put on the wire. A coding tells for each call what the client says and
what the server says to it; a protocol that has a coding carries every run against a script. -/
namespace MailClient.Sasl

variable {κ σ τ ε : Type}

/-- The longest text of a step. With a reply code in front it still fits into a mail server's
line. -/
def textLimit : Nat := 4090

structure IsPlain (text : String) : Prop where
  isLine : Text.IsLine text
  unbracketed : text.toList.head? ≠ some '['
  fits : (Bytes.ofText text).length ≤ textLimit

def ServerStep.IsPlain : ServerStep → Prop
  | .challenge data => Base64.IsText data ∧ data.length ≤ textLimit
  | .success => True
  | .rejected why => Sasl.IsPlain why

theorem ServerStep.IsPlain.length_ofText {data : String} (h : (challenge data).IsPlain) :
    (Bytes.ofText data).length ≤ textLimit := by
  rw [h.1.length_ofText]
  exact h.2

structure Coding (κ : Type) where
  next : κ → κ
  /-- The lines with which a scheme begins. -/
  begins : κ → Scheme → Option String → List String
  /-- What the server says before it takes the first message. -/
  prompt : Option String → Bytes
  answer : κ → ServerStep → Bytes

namespace Coding

variable (coding : Coding κ)

def after (k : κ) : Call ε → κ
  | .start .. => coding.next k
  | .respond .. | .cancel _ | .get .. | .invalidate _ => k

def lines (k : κ) : Call ε → List String
  | .start scheme initial _ => coding.begins (coding.next k) scheme initial
  | .respond data _ => [data]
  | .cancel _ => ["*"]
  | .get .. | .invalidate _ => []

/-- What the server says to a call. A client that gives up is turned down with `remark`. -/
def octets (remark : String) (k : κ) : Call ε → Bytes
  | .start _ initial (.ok step) => coding.prompt initial ++ coding.answer (coding.next k) step
  | .respond _ (.ok step) => coding.answer k step
  | .cancel _ => coding.answer k (.rejected remark)
  | .start _ _ (.error _) | .respond _ (.error _) | .get .. | .invalidate _ => []

def said (k : κ) : List (Call ε) → List String
  | [] => []
  | call :: calls => coding.lines k call ++ said (coding.after k call) calls

def heard (remark : String) (k : κ) : List (Call ε) → Bytes
  | [] => []
  | call :: calls => coding.octets remark k call ++ heard remark (coding.after k call) calls

end Coding

structure View (σ κ τ : Type) where
  stream : σ → Wire.Stream
  tokens : σ → τ
  /-- The last exchange has the key, and may still be open. -/
  fits : κ → (isOpen : Bool) → σ → Prop

/-- The state as it stands towards a server that has `heard` left to say, and will have been told
`total` with what is still to be `said`. -/
structure View.At (view : View σ κ τ) (total heard said : Bytes) (k : κ) (isOpen : Bool) (t : τ)
    (s : σ) : Prop where
  stands : (view.stream s).Stands total heard said
  fits : view.fits k isOpen s
  tokens : view.tokens s = t

structure Coding.Realizes (coding : Coding κ) (view : View σ κ τ) (transport : Transport σ ε)
    (tokens : TokenProvider σ) (service : TokenService τ) (code : String) : Prop where
  start {scheme initial step total heard said k t s} : step.IsPlain →
    view.At total (coding.prompt initial ++ coding.answer (coding.next k) step ++ heard)
      ((coding.begins (coding.next k) scheme initial).flatMap Bytes.line ++ said) k false t s →
    ∃ s', transport.start scheme initial s = (.ok (step.worded code), s') ∧
      view.At total heard said (coding.next k) step.isChallenge t s'
  respond {data step total heard said k t s} : step.IsPlain →
    view.At total (coding.answer k step ++ heard) (Bytes.line data ++ said) k true t s →
    ∃ s', transport.respond data s = (.ok (step.worded code), s') ∧
      view.At total heard said k step.isChallenge t s'
  cancel {remark total heard said k t s} : IsPlain remark →
    view.At total (coding.answer k (.rejected remark) ++ heard) (Bytes.line "*" ++ said) k true t
      s →
    ∃ s', transport.cancel s = (.ok (), s') ∧ view.At total heard said k false t s'
  get {total heard said k isOpen t s} (identity limit) : view.At total heard said k isOpen t s →
    ∃ s', tokens.get identity limit s = ((service.get identity limit t).1.1, s') ∧
      view.At total heard said k isOpen (service.get identity limit t).2 s'
  invalidate {total heard said k isOpen t s} (identity) : view.At total heard said k isOpen t s →
    view.At total heard said k isOpen (service.invalidate identity t)
      (tokens.invalidate identity s)

structure Coding.Plays (coding : Coding κ) (view : View σ κ τ) (service : TokenService τ)
    (remark : String) (total : Bytes) (last : List ServerStep × τ) (isOpen : Bool)
    (calls : List (Call Fault)) (s : σ) : Prop where
  ready : ∃ k steps t, (∀ step ∈ steps, step.IsPlain) ∧
    Path Script.transport (Script.tokenProvider service) (steps, t) calls last ∧
    view.At total (coding.heard remark k calls) ((coding.said k calls).flatMap Bytes.line) k isOpen
      t s

namespace Coding.Realizes

variable {coding : Coding κ} {view : View σ κ τ} {transport : Transport σ ε}
  {tokens : TokenProvider σ} {service : TokenService τ} {code remark : String}
  {last : List ServerStep × τ} {total : Bytes} {s : σ}

theorem carries (h : coding.Realizes view transport tokens service code) (hr : IsPlain remark) :
    transport.Carries tokens code (coding.Plays view service remark total last) where
  start := by
    rintro scheme initial step calls s ⟨k, steps, t, plain, path, stands⟩
    cases path with
    | cons made path =>
      cases steps with
      | nil => cases made
      | cons step steps =>
        cases made
        obtain ⟨first, plain⟩ := List.forall_mem_cons.mp plain
        rw [Coding.heard, Coding.said, List.flatMap_append] at stands
        obtain ⟨s', same, stands⟩ := h.start first stands
        exact ⟨s', same, _, steps, t, plain, path, stands⟩
  respond := by
    rintro data step calls s ⟨k, steps, t, plain, path, stands⟩
    cases path with
    | cons made path =>
      cases steps with
      | nil => cases made
      | cons step steps =>
        cases made
        obtain ⟨first, plain⟩ := List.forall_mem_cons.mp plain
        rw [Coding.heard, Coding.said, List.flatMap_append, Coding.lines,
          List.flatMap_singleton] at stands
        obtain ⟨s', same, stands⟩ := h.respond first stands
        exact ⟨s', same, _, steps, t, plain, path, stands⟩
  cancel := by
    rintro calls s ⟨k, steps, t, plain, path, stands⟩
    cases path with
    | cons made path =>
      cases made
      rw [Coding.heard, Coding.said, List.flatMap_append, Coding.lines,
        List.flatMap_singleton] at stands
      obtain ⟨s', same, stands⟩ := h.cancel hr stands
      exact ⟨s', same, _, steps, t, plain, path, stands⟩
  get := by
    rintro isOpen identity limit answer calls s ⟨k, steps, t, plain, path, stands⟩
    cases path with
    | cons made path =>
      cases made
      obtain ⟨s', same, stands⟩ := h.get identity limit stands
      exact ⟨s', same, _, steps, _, plain, path, stands⟩
  invalidate := by
    rintro isOpen identity calls s ⟨k, steps, t, plain, path, stands⟩
    cases path with
    | cons made path =>
      cases made
      exact ⟨_, steps, _, plain, path, h.invalidate identity stands⟩

end Coding.Realizes

/-! ### Reading what was said -/

structure Coding.Legible (coding : Coding κ) (inline : Bool) (read : String → Line) : Prop where
  isLine {k scheme initial} : (∀ m ∈ initial, Payload.Sendable m) →
    ∀ line ∈ coding.begins k scheme initial, Text.IsLine line
  begins {k scheme initial} (rest : List Line) : initial.isSome = scheme.speaksFirst →
    (∀ m ∈ initial, Payload.Sendable m) →
    Message.read inline ((coding.begins k scheme initial).map read ++ rest) =
      .start scheme initial :: Message.read inline rest
  solid {text} : Text.IsSolid text → read text = .data text

theorem Payload.Sendable.ofText_eq {message : String} (h : Sendable message) :
    Message.ofText message = .answer message := by
  refine if_neg ?_
  rintro rfl
  exact absurd h.text (by decide)

namespace Coding.Legible

variable {coding : Coding κ} {inline : Bool} {read : String → Line} {calls : List (Call ε)}

theorem isLine_said (h : coding.Legible inline read) (hc : ∀ call ∈ calls, call.Sendable) (k : κ) :
    ∀ line ∈ coding.said k calls, Text.IsLine line := by
  induction calls generalizing k with
  | nil => nofun
  | cons call calls ih =>
    obtain ⟨first, rest⟩ := List.forall_mem_cons.mp hc
    rw [Coding.said, List.forall_mem_append]
    refine ⟨?_, ih rest _⟩
    cases call with
    | start scheme initial answer => exact h.isLine first.2
    | respond data answer => exact List.forall_mem_singleton.mpr first.text.isSolid.isLine
    | cancel answer => exact List.forall_mem_singleton.mpr (by decide)
    | get | invalidate => nofun

theorem read_said (h : coding.Legible inline read) (hc : ∀ call ∈ calls, call.Sendable) (k : κ) :
    Message.read inline ((coding.said k calls).map read) = calls.filterMap Call.message? := by
  induction calls generalizing k with
  | nil => rfl
  | cons call calls ih =>
    obtain ⟨first, rest⟩ := List.forall_mem_cons.mp hc
    have later := ih rest (coding.after k call)
    rw [Coding.said, List.map_append]
    cases call with
    | start scheme initial answer =>
      rw [Coding.lines, h.begins _ first.1 first.2, later]
      rfl
    | respond data answer =>
      have said : read data = .data data := h.solid first.text.isSolid
      rw [Coding.lines, List.map_singleton, said]
      refine (congrArg₂ List.cons first.ofText_eq later).trans ?_
      rfl
    | cancel answer =>
      have said : read "*" = .data "*" := h.solid (by decide)
      rw [Coding.lines, List.map_singleton, said]
      exact congrArg (Message.cancel :: ·) later
    | get | invalidate => exact later

end Coding.Legible

/-! ### Whole runs -/

theorem Path.eq_of_nil {transport : Transport σ ε} {tokens : TokenProvider σ} {s s' : σ}
    (h : Path transport tokens s ([] : List (Call ε)) s') : s' = s := by
  cases h
  rfl

/-- From the state `s` the run of `b` over a protocol is the run of `a` against the script: it makes
the same calls with the same result, and the lines in which it says so can be read. -/
structure Framed (a : Authenticator (List ServerStep × τ)) (b : Authenticator σ)
    (transport : Transport σ ε) (view : View σ κ τ) (code : String) (inline : Bool)
    (read : String → Line) (offered : List Challenge) (script : List ServerStep × τ)
    (s : σ) : Prop where
  calls : List.Forall₂ (Call.Carried code) (a.calls Script.transport offered .fresh script)
    (b.calls transport offered .fresh s)
  result : Agree code transport.ofAuth (a.run Script.transport offered (.fresh, script)).1
    (b.run transport offered (.fresh, s)).1
  negotiation : (b.run transport offered (.fresh, s)).2.1 =
    (a.run Script.transport offered (.fresh, script)).2.1
  tokens : view.tokens (b.run transport offered (.fresh, s)).2.2 =
    (a.run Script.transport offered (.fresh, script)).2.2.2
  messages : ∃ lines : List String,
    (view.stream (b.run transport offered (.fresh, s)).2.2).written =
        (view.stream s).written ++ lines.flatMap Bytes.line ∧
      (∀ line ∈ lines, Text.IsLine line) ∧
      Message.read inline (lines.map read) =
        (a.calls Script.transport offered .fresh script).filterMap Call.message?

namespace Coding.Realizes

variable {coding : Coding κ} {view : View σ κ τ} {transport : Transport σ ε}
  {tokens : TokenProvider σ} {service : TokenService τ} {code remark : String} {inline : Bool}
  {read : String → Line} {s : σ}

/-- A server that says what the coding has for the run against a script makes the run over the
protocol the same. -/
theorem framed (h : coding.Realizes view transport tokens service code)
    (legible : coding.Legible inline read) (host : String) (strategy : Strategy) (limit : Duration)
    (offered : List Challenge) {script : List ServerStep × τ}
    (plain : ∀ step ∈ script.1, step.IsPlain) (hr : IsPlain remark) {k : κ}
    (enough : ((Authenticator.mk host strategy (Script.tokenProvider service) limit).run
      Script.transport offered (.fresh, script)).1 ≠ .error .exhausted)
    (offers : (view.stream s).Offers (coding.heard remark k
      ((Authenticator.mk host strategy (Script.tokenProvider service) limit).calls
        Script.transport offered .fresh script)))
    (fits : view.fits k false s) (same : view.tokens s = script.2) :
    Framed ⟨host, strategy, Script.tokenProvider service, limit⟩ ⟨host, strategy, tokens, limit⟩
      transport view code inline read offered script s := by
  let a : Authenticator (List ServerStep × τ) :=
    ⟨host, strategy, Script.tokenProvider service, limit⟩
  have path := a.path_run Script.transport offered script
  have sendable := a.sendable_calls Script.transport offered script
  obtain ⟨calls, result, negotiation, _, _, steps, t, -, path', stands⟩ :=
    Transport.Carries.same (s := s) (h.carries hr) host strategy service limit offered script enough
      ⟨k, script.1, script.2, plain, path, ⟨offers, rfl⟩, fits, same⟩
  refine ⟨calls, result, negotiation, ?_, _, ?_, legible.isLine_said sendable k,
    legible.read_said sendable k⟩
  · rw [path'.eq_of_nil]
    exact stands.tokens
  · have written := stands.stands.written
    rw [Coding.said, List.flatMap_nil, List.append_nil] at written
    exact written

end Coding.Realizes
end MailClient.Sasl
