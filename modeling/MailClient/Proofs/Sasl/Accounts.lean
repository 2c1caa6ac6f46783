import Mathlib.Data.List.DropRight
import MailClient.Proofs.Sasl.Negotiating

/-! How an exchange keeps count of its messages, over operations in any order. The count has eight
bits. It is right while there have been fewer than 256 messages since the last restart. Only a
candidate that begins on its own can be asked for more. -/
namespace MailClient.Sasl.Exchange

inductive Operation where
  | answer (token : Option String)
  | challenge (c : Challenge)
  | restart

inductive Event where
  | answered (r : Except Error (Option String))
  | challenged
  | restarted

namespace Event

def isMessage : Event → Bool
  | .answered (.ok (some _)) => true
  | _ => false

def isRestart : Event → Bool
  | .restarted => true
  | _ => false

end Event

/-- The messages since the last restart. -/
def messages (events : List Event) : Nat :=
  (events.rtakeWhile fun e => !e.isRestart).countP Event.isMessage

structure Account where
  exchange : Exchange
  events : List Event

namespace Account

def start (candidate : Candidate) : Account := ⟨.start candidate, []⟩

def perform (a : Account) : Operation → Account
  | .answer token =>
    ⟨(a.exchange.answer token).2, a.events ++ [.answered (a.exchange.answer token).1]⟩
  | .challenge c => ⟨a.exchange.challenge c, a.events ++ [.challenged]⟩
  | .restart => ⟨a.exchange.restart, a.events ++ [.restarted]⟩

def run (a : Account) (operations : List Operation) : Account := operations.foldl perform a

/-- The exchange knows how many messages it has sent. A challenge makes it complete if it has had
its turns, and waits for its answer otherwise. -/
structure Remembers (a : Account) : Prop where
  sent : a.exchange.sent.toNat = messages a.events
  complete : ∀ c, (a.exchange.challenge c).complete = true ↔
    a.exchange.scheme.turns ≤ messages a.events
  waits : ∀ c, (a.exchange.challenge c).pending.isSome = true ↔
    messages a.events < a.exchange.scheme.turns

variable {a : Account} {candidate : Candidate} {events : List Event} {token : Option String}

/-! ### Messages -/

theorem messages_restarted (events : List Event) : messages (events ++ [.restarted]) = 0 := by
  have last : (!Event.isRestart .restarted) = false := rfl
  simp [messages, last]

theorem messages_concat {e : Event} (h : e.isRestart = false) :
    messages (events ++ [e]) = messages events + if e.isMessage then 1 else 0 := by
  unfold messages
  rw [List.rtakeWhile_concat_pos _ _ _ (by simp [h]), List.countP_append, List.countP_singleton]

theorem messages_answer (a : Account) (token : Option String) :
    messages (a.perform (.answer token)).events = messages a.events +
      if (Event.answered (a.exchange.answer token).1).isMessage then 1 else 0 :=
  messages_concat rfl

theorem messages_challenge (a : Account) (c : Challenge) :
    messages (a.perform (.challenge c)).events = messages a.events := messages_concat rfl

/-- The answer is counted if it is a message. -/
theorem sent_answer (x : Exchange) (token : Option String) :
    (x.answer token).2.sent =
      x.sent + if (Event.answered (x.answer token).1).isMessage then 1 else 0 := by
  unfold Exchange.answer
  dsimp only
  cases message x.candidate x.sent x.pending token with
  | error e => simp [Event.isMessage]
  | ok reply => cases reply <;> simp [Event.isMessage]

theorem candidate_perform (a : Account) (operation : Operation) :
    (a.perform operation).exchange.candidate = a.exchange.candidate := by
  cases operation with
  | answer token => rfl
  | challenge c => exact candidate_challenge a.exchange c
  | restart => rfl

theorem scheme_perform (a : Account) (operation : Operation) :
    (a.perform operation).exchange.scheme = a.exchange.scheme :=
  congrArg Candidate.scheme (candidate_perform a operation)

/-! ### The count -/

/-- The count goes round, and completion is never told before its time. -/
structure Tallied (a : Account) : Prop where
  sent : a.exchange.sent.toNat = messages a.events % 256
  complete : a.exchange.complete = true → a.exchange.scheme.turns ≤ messages a.events

theorem tallied_start (candidate : Candidate) : (start candidate).Tallied where
  sent := rfl
  complete := nofun

theorem tallied_perform (h : a.Tallied) (operation : Operation) :
    (a.perform operation).Tallied := by
  have sent := h.sent
  cases operation with
  | answer token =>
    constructor
    · rw [messages_answer]
      show (a.exchange.answer token).2.sent.toNat = _
      rw [sent_answer]
      split
      · rw [UInt8.toNat_add, UInt8.toNat_one]
        omega
      · rw [UInt8.add_zero]
        exact sent
    · intro complete
      rw [messages_answer, scheme_perform]
      exact Nat.le_add_right_of_le (h.complete complete)
  | challenge c =>
    constructor
    · rw [messages_challenge]
      show (a.exchange.challenge c).sent.toNat = _
      rw [sent_challenge]
      exact sent
    · intro complete
      rw [messages_challenge, scheme_perform]
      rcases (complete_challenge a.exchange c).mp complete with before | spent
      · exact h.complete before
      · omega
  | restart =>
    have none : messages (a.perform .restart).events = 0 := messages_restarted _
    constructor
    · rw [none]
      rfl
    · intro complete
      cases complete

theorem tallied_run (h : a.Tallied) (operations : List Operation) : (a.run operations).Tallied := by
  induction operations generalizing a with
  | nil => exact h
  | cons operation operations ih => exact ih (tallied_perform h operation)

theorem Tallied.remembers (h : a.Tallied) (few : messages a.events < 256) : a.Remembers := by
  have sent : a.exchange.sent.toNat = messages a.events := by
    rw [h.sent]
    exact Nat.mod_eq_of_lt few
  refine ⟨sent, ?_, ?_⟩
  · intro c
    rw [complete_challenge, sent]
    constructor
    · rintro (before | spent)
      · exact h.complete before
      · exact spent
    · intro spent
      exact .inr spent
  · intro c
    rw [pending_challenge, sent]

theorem Remembers.messages_lt (h : a.Remembers) : messages a.events < 256 := by
  rw [← h.sent]
  exact a.exchange.sent.toNat_lt

/-! ### Candidates that wait for the server -/

/-- Such a candidate answers challenges only. -/
theorem pending_of_waiting {sent : UInt8} {pending : Option String} {m : String}
    (hw : candidate.begins = false)
    (h : message candidate sent pending token = .ok (some m)) : pending.isSome = true := by
  cases pending with
  | some data => rfl
  | none =>
    have fits : candidate.fits = true := by
      by_contra hf
      rw [message_of_unfit sent none (eq_false_of_ne_true hf)] at h
      cases h
    have prompted : candidate.scheme.speaksFirst = false := by
      simpa [Candidate.begins, fits] using hw
    obtain ⟨scheme, credentials⟩ := candidate
    cases scheme with
    | login | cramMd5 => cases credentials <;> cases h
    | plain | xoauth2 | oauthBearer | external => cases prompted

structure Restrained (a : Account) : Prop where
  messages_le : messages a.events ≤ a.exchange.scheme.turns
  pending_lt : a.exchange.pending.isSome = true → messages a.events < a.exchange.scheme.turns

theorem restrained_perform (hw : a.exchange.candidate.begins = false) (ht : a.Tallied)
    (h : a.Restrained) (operation : Operation) : (a.perform operation).Restrained := by
  have le := h.messages_le
  cases operation with
  | answer token =>
    refine ⟨?_, nofun⟩
    rw [messages_answer, scheme_perform]
    split
    next message =>
      have pending : a.exchange.pending.isSome = true := by
        unfold Event.isMessage at message
        split at message
        next m hm => exact pending_of_waiting hw (Event.answered.inj hm)
        · cases message
      have lt := h.pending_lt pending
      omega
    · exact le
  | challenge c =>
    constructor
    · rw [messages_challenge, scheme_perform]
      exact le
    · intro pending
      rw [messages_challenge, scheme_perform]
      -- With at most two turns, the count has not gone round.
      have left := (pending_challenge a.exchange c).mp pending
      have sent := ht.sent
      have few := Negotiation.turns_le_two a.exchange.scheme
      omega
  | restart =>
    have none : messages (a.perform .restart).events = 0 := messages_restarted _
    refine ⟨?_, nofun⟩
    rw [none]
    exact Nat.zero_le _

theorem restrained_run (hw : a.exchange.candidate.begins = false) (ht : a.Tallied)
    (h : a.Restrained) (operations : List Operation) : (a.run operations).Restrained := by
  induction operations generalizing a with
  | nil => exact h
  | cons operation operations ih =>
    apply ih _ (tallied_perform ht operation) (restrained_perform hw ht h operation)
    rw [candidate_perform]
    exact hw

/-! ### Candidates that begin -/

/-- Without a challenge to answer, such a candidate begins again whenever it is asked. -/
theorem message_of_begins (sent : UInt8) (hb : candidate.begins = true)
    (ht : candidate.scheme.usesToken = true → token.isSome = true) :
    ∃ m, message candidate sent none token = .ok (some m) := by
  have opening := Candidate.isSome_opening ht
  rw [hb] at opening
  obtain ⟨m, hm⟩ := Option.isSome_iff_exists.mp opening
  have fits : candidate.fits = true := (Bool.and_eq_true_iff.mp hb).1
  rw [message_of_fits sent fits ht, hm]
  exact ⟨m, rfl⟩

theorem messages_asked (a : Account) (hb : a.exchange.candidate.begins = true)
    (ht : a.exchange.scheme.usesToken = true → token.isSome = true)
    (hp : a.exchange.pending = none) (n : Nat) :
    messages (a.run (List.replicate n (.answer token))).events = messages a.events + n := by
  induction n generalizing a with
  | zero => rfl
  | succ n ih =>
    obtain ⟨m, hm⟩ := message_of_begins a.exchange.sent hb ht
    have answered : (a.exchange.answer token).1 = .ok (some m) := by
      unfold Exchange.answer
      rw [hp]
      exact hm
    have first : messages (a.perform (.answer token)).events = messages a.events + 1 := by
      rw [messages_answer, answered]
      rfl
    have rest := ih (a.perform (.answer token)) hb ht rfl
    calc messages (a.run (List.replicate (n + 1) (.answer token))).events
      _ = messages (a.perform (.answer token)).events + n := rest
      _ = messages a.events + (n + 1) := by omega

/-! ### When the count is right -/

/-- The count is that of the messages since the last restart, modulo 256. So it is right, and
completion with it, as long as there are fewer than 256. It is right after all operations exactly
if the candidate cannot begin, but only answer. -/
theorem remembers_iff (candidate : Candidate) :
    (∀ operations, ((start candidate).run operations).exchange.sent.toNat =
        messages ((start candidate).run operations).events % 256 ∧
      (((start candidate).run operations).Remembers ↔
        messages ((start candidate).run operations).events < 256)) ∧
    ((∀ operations, ((start candidate).run operations).Remembers) ↔
      candidate.begins = false) := by
  have tallied := tallied_run (tallied_start candidate)
  refine ⟨?_, ?_, ?_⟩
  · intro operations
    exact ⟨(tallied operations).sent, Remembers.messages_lt, (tallied operations).remembers⟩
  · intro remembers
    by_contra hb
    have lt := (remembers (List.replicate 256 (.answer (some "")))).messages_lt
    rw [messages_asked (start candidate) (eq_true_of_ne_false hb) (fun _ => rfl) rfl] at lt
    omega
  · intro hw operations
    apply (tallied operations).remembers
    have restrained : (start candidate).Restrained := ⟨Nat.zero_le _, nofun⟩
    have le := (restrained_run hw (tallied_start candidate) restrained operations).messages_le
    have few := Negotiation.turns_le_two ((start candidate).run operations).exchange.scheme
    omega

/-- After 256 messages the exchange takes itself for one that has sent none, and a challenge does
not make it complete. -/
theorem not_remembers_asked :
    let a := (start ⟨.plain, .password "user" "secret"⟩).run (List.replicate 256 (.answer none))
    messages a.events = 256 ∧ a.exchange.sent = 0 ∧
      (a.exchange.challenge (.offer .plain)).complete = false ∧ ¬a.Remembers := by
  intro a
  have asked : messages a.events = 256 := messages_asked _ rfl (by decide) rfl 256
  obtain ⟨-, right⟩ := (remembers_iff ⟨.plain, .password "user" "secret"⟩).1
    (List.replicate 256 (.answer none))
  refine ⟨asked, by decide +kernel, by decide +kernel, ?_⟩
  rw [right]
  change ¬messages a.events < 256
  omega

end Account
end MailClient.Sasl.Exchange
