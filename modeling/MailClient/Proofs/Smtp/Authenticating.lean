import MailClient.Proofs.Sasl.Closing
import MailClient.Proofs.Sasl.Messages
import MailClient.Proofs.Smtp.Turns

/-! An authentication by turns. Each message of the client is a turn, giving up is one, and what
comes of it is the judgement on the reply. -/
namespace MailClient.Smtp

open Sasl (Call ClientMessage Path Talk Authenticator)

namespace Dialogue

def judgeEnd (reply : Reply) : Except Error Unit :=
  match judge reply with
  | .ok (.challenge _) => .error (.violation .endlessChallenges)
  | .ok _ => .ok ()
  | .error e => .error e

def utterance : ClientMessage → Utterance
  | .start scheme initial => .command (.auth scheme initial)
  | .answer data => .line data

/-- The calls are carried by the turns: what is made of a message, or of giving up, is made of the
answer in its own turn. Tokens take no turns. -/
inductive Carried : List (Call Error) → List Turn → Prop where
  | nil : Carried [] []
  | message (message : ClientMessage) (answer : Except Error Reply) {calls turns} :
      Carried calls turns →
      Carried (message.call (answer.bind judge) :: calls) (⟨utterance message, answer⟩ :: turns)
  | cancel (answer : Except Error Reply) {calls turns} : Carried calls turns →
      Carried (.cancel (answer.bind judgeEnd) :: calls) (⟨.line "*", answer⟩ :: turns)
  | get (identity limit answer) {calls turns} : Carried calls turns →
      Carried (.get identity limit answer :: calls) turns
  | invalidate (identity) {calls turns} : Carried calls turns →
      Carried (.invalidate identity :: calls) turns

theorem Carried.append {calls later : List (Call Error)} {turns more : List Turn}
    (h : Carried calls turns) (h' : Carried later more) :
    Carried (calls ++ later) (turns ++ more) := by
  induction h with
  | nil => exact h'
  | message m answer _ ih => exact .message m answer ih
  | cancel answer _ ih => exact .cancel answer ih
  | get identity limit answer _ ih => exact .get identity limit answer ih
  | invalidate identity _ ih => exact .invalidate identity ih

theorem isLine_auth {scheme : Sasl.Scheme} {initial : Option String}
    (h : ∀ m ∈ initial, Sasl.Payload.Sendable m) :
    (Utterance.command (.auth scheme initial)).IsLine := by
  rw [Utterance.IsLine, line_auth]
  exact Text.isLine_append.mpr ⟨by decide, Sasl.isLine_argument h⟩

/-- What can be sent takes a line of its own. -/
theorem Carried.isLine {calls : List (Call Error)} {turns : List Turn} (h : Carried calls turns)
    (sendable : ∀ call ∈ calls, call.Sendable) : ∀ t ∈ turns, t.said.IsLine := by
  induction h with
  | nil => exact List.forall_mem_nil _
  | message m answer _ ih =>
    obtain ⟨first, others⟩ := List.forall_mem_cons.mp sendable
    refine List.forall_mem_cons.mpr ⟨?_, ih others⟩
    cases m with
    | start scheme initial =>
      obtain ⟨-, opening⟩ := first
      exact isLine_auth opening
    | answer data =>
      have sendable : Sasl.Payload.Sendable data := first
      exact sendable.text.isSolid.isLine
  | cancel answer _ ih =>
    refine List.forall_mem_cons.mpr ⟨?_, ih (List.forall_mem_cons.mp sendable).2⟩
    change Text.IsLine "*"
    decide
  | get _ _ _ _ ih => exact ih (List.forall_mem_cons.mp sendable).2
  | invalidate _ _ ih => exact ih (List.forall_mem_cons.mp sendable).2

variable {τ : Type} {d d' : Dialogue τ} {script left : List WrittenReply}
  {service : Sasl.TokenService τ} {calls : List (Call Error)} {message : ClientMessage}

/-! ### Messages -/

theorem readStep_eq (d : Dialogue τ) : ∃ underWay, readStep d =
    ((readReply d.limit d.stream).1.bind judge,
      { d with stream := (readReply d.limit d.stream).2, underWay := underWay }) ∧
    ∀ reply, (readReply d.limit d.stream).1 = .ok reply →
      underWay = (d.underWay && reply.code == challengeCode) := by
  unfold readStep lift
  rcases readReply d.limit d.stream with ⟨e | reply, s⟩
  · exact ⟨d.underWay, rfl, nofun⟩
  · refine ⟨_, rfl, ?_⟩
    rintro reply ⟨⟩
    rfl

theorem respond_eq (data : String) (d : Dialogue τ) : ∃ underWay, respond data d =
    ((exchange (Bytes.line data) d.limit d.stream).1.bind judge,
      { d with stream := (exchange (Bytes.line data) d.limit d.stream).2, underWay := underWay }) ∧
    ∀ reply, (exchange (Bytes.line data) d.limit d.stream).1 = .ok reply →
      underWay = (d.underWay && reply.code == challengeCode) := by
  rw [exchange_eq]
  unfold respond lift
  rcases write (Bytes.line data) d.limit d.stream with ⟨e | _, s⟩
  · exact ⟨d.underWay, rfl, nofun⟩
  · dsimp only
    exact readStep_eq { d with stream := s }

theorem start_eq (scheme : Sasl.Scheme) (initial : Option String) (d : Dialogue τ) :
    ∃ underWay, start scheme initial d =
      ((exchange (Command.auth scheme initial).encode d.limit d.stream).1.bind judge,
        { d with
          stream := (exchange (Command.auth scheme initial).encode d.limit d.stream).2,
          underWay := underWay }) ∧
    ∀ reply, (exchange (Command.auth scheme initial).encode d.limit d.stream).1 = .ok reply →
      underWay = (reply.code == challengeCode) := by
  rw [exchange_eq]
  unfold start lift
  rcases write (Command.auth scheme initial).encode d.limit d.stream with ⟨e | _, s⟩
  · exact ⟨d.underWay, rfl, nofun⟩
  · dsimp only
    exact readStep_eq { d with stream := s, underWay := true }

theorem code_of_judge {reply : Reply} {data : String} (h : judge reply = .ok (.challenge data)) :
    reply.code = challengeCode := by
  unfold judge at h
  split at h
  next code => exact code
  · split_ifs at h <;> cases h

theorem send_start (scheme : Sasl.Scheme) (initial : Option String) (d : Dialogue τ) :
    Authenticator.send transport (.start scheme initial) d = start scheme initial d := by
  rw [Authenticator.send, transport_start]

theorem send_answer (data : String) (d : Dialogue τ) :
    Authenticator.send transport (.answer data) d = respond data d := by
  rw [Authenticator.send, transport_respond]

/-- A message is a turn. What a challenge leaves is an exchange under way. -/
theorem conversed_send (h : Holds script d.stream)
    (due : message.Due (fun _ => True) (fun d => d.underWay = true) d) :
    ∃ answer left d', Authenticator.send transport message d = (answer.bind judge, d') ∧
      Conversed [⟨utterance message, answer⟩] script left d.stream d'.stream ∧
      ∀ data, answer.bind judge = .ok (.challenge data) → d'.underWay = true := by
  obtain ⟨left, conversed⟩ := conversed_exchange h (utterance message) d.limit
  obtain ⟨underWay, sent, kept⟩ : ∃ underWay, Authenticator.send transport message d =
      ((exchange (utterance message).octets d.limit d.stream).1.bind judge,
        { d with
          stream := (exchange (utterance message).octets d.limit d.stream).2,
          underWay := underWay }) ∧
      ∀ reply, (exchange (utterance message).octets d.limit d.stream).1 = .ok reply →
        underWay = (reply.code == challengeCode) := by
    cases message with
    | start scheme initial =>
      rw [send_start, utterance, Utterance.octets]
      exact start_eq scheme initial d
    | answer data =>
      rw [send_answer, utterance, Utterance.octets]
      obtain ⟨underWay, sent, kept⟩ := respond_eq data d
      refine ⟨underWay, sent, fun reply hr => ?_⟩
      rw [kept reply hr, show d.underWay = true from due, Bool.true_and]
  refine ⟨_, left, _, sent, conversed, fun data hc => ?_⟩
  generalize (exchange (utterance message).octets d.limit d.stream).1 = answer at kept hc
  cases answer with
  | error e => cases hc
  | ok reply =>
    rw [kept reply rfl, code_of_judge hc]
    rfl

theorem conversed_cancel (h : Holds script d.stream) (underWay : d.underWay = true) :
    ∃ answer left d', cancel d = (answer.bind judgeEnd, d') ∧
      Conversed [⟨.line "*", answer⟩] script left d.stream d'.stream := by
  obtain ⟨left, conversed⟩ := conversed_exchange h (.line "*") d.limit
  rw [Utterance.octets] at conversed
  obtain ⟨underWay', responded, -⟩ := respond_eq "*" d
  generalize exchange (Bytes.line "*") d.limit d.stream = p at conversed responded
  obtain ⟨answer, s⟩ := p
  refine ⟨answer, left, { d with stream := s, underWay := underWay' }, ?_, conversed⟩
  unfold cancel
  rw [underWay, Bool.not_true, if_neg (by simp), responded]
  cases answer with
  | error e => rfl
  | ok reply =>
    simp only [Except.bind, judgeEnd]
    rcases judge reply with e | data | _ | why <;> rfl

/-! ### Runs -/

/-- The calls are carried by turns that keep to the script. No turn of a success is without an
answer. -/
structure Spoken (calls : List (Call Error)) (r : Except Error Sasl.Outcome) (turns : List Turn)
    (script left : List WrittenReply) (d d' : Dialogue τ) : Prop where
  carried : Carried calls turns
  conversed : Conversed turns script left d.stream d'.stream
  answered : ∀ o, r = .ok o → ∀ t ∈ turns, t.Answered

/-- Tokens are no matter of the stream. -/
theorem still_made {call : Call Error} (hq : call.atTransport = false)
    (made : call.Made transport (tokenProvider service) d d') : Still d.stream d'.stream := by
  cases call with
  | get | invalidate =>
    cases made
    exact ⟨rfl, rfl, rfl⟩
  | start | respond | cancel => cases hq

theorem still_quiet {quiet : List (Call Error)} (hq : ∀ call ∈ quiet, call.atTransport = false)
    (path : Path transport (tokenProvider service) d quiet d') :
    Carried quiet [] ∧ Still d.stream d'.stream := by
  induction path with
  | nil => exact ⟨.nil, rfl, rfl, rfl⟩
  | @cons call _ _ _ _ made _ ih =>
    obtain ⟨first, others⟩ := List.forall_mem_cons.mp hq
    obtain ⟨carried, still⟩ := ih others
    refine ⟨?_, (still_made first made).trans still⟩
    cases call with
    | get identity limit answer => exact .get identity limit answer carried
    | invalidate identity => exact .invalidate identity carried
    | start | respond | cancel => cases first

/-- The message is sent in the first turn. Calls for tokens that follow on it belong to the turn. -/
theorem first_turn {made : Except Error Sasl.ServerStep} {quiet later : List (Call Error)}
    (h : Holds script d.stream)
    (due : message.Due (fun _ => True) (fun d => d.underWay = true) d)
    (hq : ∀ call ∈ quiet, call.atTransport = false)
    (path : Path transport (tokenProvider service) d (message.call made :: (quiet ++ later)) d') :
    ∃ answer middle d₁, made = answer.bind judge ∧
      Carried (message.call made :: quiet) [⟨utterance message, answer⟩] ∧
      Conversed [⟨utterance message, answer⟩] script middle d.stream d₁.stream ∧
      Path transport (tokenProvider service) d₁ later d' ∧
      (quiet = [] → ∀ data, made = .ok (.challenge data) → d₁.underWay = true) := by
  obtain ⟨d₂, sent, path⟩ := path.of_message
  obtain ⟨d₁, resting, path⟩ := path.of_append
  obtain ⟨answer, middle, d₃, sent', conversed, underWay⟩ := conversed_send h due
  obtain ⟨same, rfl⟩ := Prod.mk.inj (sent.symm.trans sent')
  obtain ⟨carried, still⟩ := still_quiet hq resting
  refine ⟨answer, middle, d₁, same, ?_, conversed.append_still still, path, ?_⟩
  · rw [same]
    exact .message message answer carried
  · rintro rfl data hc
    cases resting
    exact underWay data (same ▸ hc)

theorem answered_of_bind {α : Type} {judgement : Reply → Except Error α}
    {answer : Except Error Reply} {a : α} (h : answer.bind judgement = .ok a) :
    ∃ reply, answer = .ok reply := by
  cases answer with
  | error e => cases h
  | ok reply => exact ⟨reply, rfl⟩

theorem Spoken.after {t : Turn} {first : List (Call Error)} {turns : List Turn}
    {middle : List WrittenReply} {r : Except Error Sasl.Outcome} {d₁ : Dialogue τ}
    (answered : t.Answered) (carried : Carried first [t])
    (conversed : Conversed [t] script middle d.stream d₁.stream)
    (later : Spoken calls r turns middle left d₁ d') :
    Spoken (first ++ calls) r (t :: turns) script left d d' where
  carried := carried.append later.carried
  conversed := conversed.append (List.forall_mem_singleton.mpr answered) later.conversed
  answered o ho := List.forall_mem_cons.mpr ⟨answered, later.answered o ho⟩

/-- Each message of an exchange is a turn, from the first one to the last. -/
theorem spoken_talk {limit : Duration} {refreshed : Bool} {n n' : Sasl.Negotiation}
    {x : Sasl.Exchange} {r : Except Error Sasl.Outcome}
    (talk : Talk limit .auth refreshed n x message calls r n') (h : Holds script d.stream)
    (due : message.Due (fun _ => True) (fun d => d.underWay = true) d)
    (path : Path transport (tokenProvider service) d calls d') :
    ∃ turns left, Spoken calls r turns script left d d' := by
  induction talk generalizing script d with
  | lost =>
    obtain ⟨answer, left, d₁, -, carried, conversed, rest, -⟩ :=
      @first_turn _ _ _ _ _ _ _ [] [] h due (List.forall_mem_nil _) path
    cases rest
    exact ⟨_, left, carried, conversed, nofun⟩
  | accepted =>
    obtain ⟨answer, left, d₁, made, carried, conversed, rest, -⟩ :=
      @first_turn _ _ _ _ _ _ _ [] [] h due (List.forall_mem_nil _) path
    cases rest
    exact ⟨_, left, carried, conversed,
      fun _ _ => List.forall_mem_singleton.mpr (answered_of_bind made.symm)⟩
  | rejected =>
    obtain ⟨answer, left, d₁, -, carried, conversed, rest, -⟩ :=
      @first_turn _ _ _ _ _ _ _ [] [] h due (List.forall_mem_nil _) path
    cases rest
    exact ⟨_, left, carried, conversed, nofun⟩
  | @denied _ x _ why e _ =>
    obtain ⟨answer, left, d₁, -, carried, conversed, rest, -⟩ :=
      @first_turn _ _ _ _ _ _ _ [.invalidate x.user, .get x.user limit (.error e)] [] h due
        (by simp) path
    cases rest
    exact ⟨_, left, carried, conversed, nofun⟩
  | @renewed _ x _ _ token _ _ _ _ _ ih =>
    obtain ⟨answer, middle, d₁, made, carried, conversed, rest, -⟩ :=
      @first_turn _ _ _ _ _ _ _ [.invalidate x.user, .get x.user limit (.ok token)] _ h due
        (by simp) path
    obtain ⟨turns, left, later⟩ := ih conversed.holds trivial rest
    exact ⟨_, left, later.after (answered_of_bind made.symm) carried conversed⟩
  | answered _ _ _ ih =>
    obtain ⟨answer, middle, d₁, made, carried, conversed, rest, underWay⟩ :=
      @first_turn _ _ _ _ _ _ _ [] _ h due (List.forall_mem_nil _) path
    obtain ⟨turns, left, later⟩ := ih conversed.holds (underWay rfl _ rfl) rest
    exact ⟨_, left, later.after (answered_of_bind made.symm) carried conversed⟩
  | @abandoned _ _ _ _ _ _ given =>
    obtain ⟨answer, middle, d₁, made, carried, conversed, rest, underWay⟩ :=
      @first_turn _ _ _ _ _ _ _ [] _ h due (List.forall_mem_nil _) path
    cases rest with
    | cons cancelled rest =>
      cases rest
      obtain ⟨answer', left, d₂, cancelled', conversed'⟩ :=
        conversed_cancel conversed.holds (underWay rfl _ rfl)
      obtain ⟨rfl, rfl⟩ := Prod.mk.inj (cancelled.symm.trans cancelled')
      exact ⟨_, left, .after (answered_of_bind made.symm) carried conversed
        ⟨.cancel answer' .nil, conversed', nofun⟩⟩

/-- All that a run says, it says in turns. -/
theorem spoken_run (a : Authenticator (Dialogue τ)) (ha : a.tokens = tokenProvider service)
    (offered : List Sasl.Challenge) (h : Holds script d.stream) :
    ∃ turns left, Spoken (a.calls transport offered .fresh d)
      (a.run transport offered (.fresh, d)).1 turns script left d
      (a.run transport offered (.fresh, d)).2.2 := by
  have path := a.path_run transport offered d
  have ran := a.ran transport offered .fresh d
  rw [ha] at path
  generalize a.calls transport offered .fresh d = calls at path ran ⊢
  generalize (a.run transport offered (.fresh, d)).2.2 = d' at path ⊢
  generalize (a.run transport offered (.fresh, d)).1 = r at ran ⊢
  generalize (a.run transport offered (.fresh, d)).2.1 = n' at ran
  cases ran with
  | unasked | closed | spent =>
    cases path
    exact ⟨[], script, .nil, .still h ⟨rfl, rfl, rfl⟩, fun _ _ => List.forall_mem_nil _⟩
  | exhausted _ passed =>
    obtain ⟨carried, still⟩ := still_quiet
      (fun call hc => Call.atTransport_of_request? (passed.isSome_request? hc)) path
    exact ⟨[], script, carried, .still h still, fun _ _ => List.forall_mem_nil _⟩
  | begun _ _ passed _ ready talk =>
    obtain ⟨d₁, skipping, path⟩ := path.of_append
    obtain ⟨d₂, preparing, path⟩ := path.of_append
    obtain ⟨skipped, still₁⟩ := still_quiet
      (fun call hc => Call.atTransport_of_request? (passed.isSome_request? hc)) skipping
    obtain ⟨prepared, still₂⟩ := still_quiet
      (fun call hc => Call.atTransport_of_request? (ready.isSome_request? hc)) preparing
    have silence : Conversed [] script script d.stream d₂.stream := .still h (still₁.trans still₂)
    obtain ⟨turns, left, spoken⟩ := spoken_talk talk silence.holds trivial path
    exact ⟨turns, left, skipped.append (prepared.append spoken.carried),
      silence.append (List.forall_mem_nil _) spoken.conversed, spoken.answered⟩
  | resumed turn | dropped turn => simp [Sasl.Negotiation.turn?, Sasl.Negotiation.fresh] at turn

end Dialogue
end MailClient.Smtp
