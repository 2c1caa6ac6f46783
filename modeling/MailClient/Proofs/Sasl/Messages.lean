import MailClient.Proofs.Sasl.Alphabet
import MailClient.Proofs.Sasl.Talk

/-! The messages that a client sends in an authentication. All of them are encoded texts, and a
scheme has a first message of its own exactly if the client speaks first in it. -/
namespace MailClient.Sasl

structure Payload.Sendable (message : String) : Prop where
  text : Base64.IsText message
  notSign : message ≠ "="

namespace Payload

theorem sendable_empty : Sendable "" where
  text := by decide
  notSign := by decide

theorem sendable_encode (s : String) : Sendable (encode s) where
  text := Base64.isText_encodeText _
  notSign := Base64.encodeText_ne_pad _

theorem sendable_cramMd5 {user password challenge message : String}
    (h : cramMd5 user password challenge = .ok message) : Sendable message := by
  unfold cramMd5 at h
  split at h
  · cases h
  · cases h
    exact sendable_encode _

end Payload

variable {σ ε : Type} {limit : Duration} {fault : Error → ε} {calls : List (Call ε)}
  {r : Except ε Outcome} {n n' : Negotiation} {candidate : Candidate} {token : Option String}

theorem Exchange.sendable_message {sent : UInt8} {pending : Option String} {m : String}
    (h : message candidate sent pending token = .ok (some m)) : Payload.Sendable m := by
  unfold message at h
  split at h
  case h_1 =>
    obtain rfl := Option.some.inj (Except.ok.inj h)
    exact Payload.sendable_encode _
  case h_2 =>
    split at h
    · cases h
    · obtain rfl := Option.some.inj (Except.ok.inj h)
      exact Payload.sendable_encode _
  case h_3 =>
    split at h
    · cases h
    · generalize built : Payload.cramMd5 _ _ _ = p at h
      cases p with
      | error e => cases h
      | ok m' =>
        cases h
        exact Payload.sendable_cramMd5 built
  case h_4 | h_5 =>
    split at h
    · cases h
      exact Payload.sendable_empty
    · obtain rfl := Option.some.inj (Except.ok.inj h)
      exact Payload.sendable_encode _
    · cases h
  case h_6 =>
    obtain rfl := Option.some.inj (Except.ok.inj h)
    exact Payload.sendable_encode _
  case h_7 => cases h

theorem Exchange.sendable_of_answer {x x' : Exchange} {reply : Option String}
    (h : x.answer token = (.ok reply, x')) : Payload.Sendable (reply.getD "") := by
  unfold answer at h
  obtain ⟨built, -⟩ := Prod.mk.inj h
  cases reply with
  | none => exact Payload.sendable_empty
  | some m => exact sendable_message built

/-! ### Calls -/

/-- The call carries what can be sent, and a first message exactly where the client is to speak
first. -/
def Call.Sendable : Call ε → Prop
  | .start scheme initial _ =>
    initial.isSome = scheme.speaksFirst ∧ ∀ m ∈ initial, Payload.Sendable m
  | .respond data _ => Payload.Sendable data
  | .cancel _ | .get .. | .invalidate _ => True

theorem Call.sendable_of_request? {call : Call ε} (h : call.request?.isSome = true) :
    call.Sendable := by
  obtain ⟨_, _, _, rfl⟩ := of_request? h
  exact trivial

/-- A candidate that can open sends a first message if it is to speak first. -/
theorem Candidate.sendable_opening (hf : candidate.fits = true)
    (ht : candidate.scheme.usesToken = true → token.isSome = true) (answer : Except ε ServerStep) :
    (Call.start candidate.scheme (candidate.opening token) answer).Sendable := by
  refine ⟨?_, fun m hm => ?_⟩
  · rw [isSome_opening ht, begins, hf, Bool.true_and]
  · have built := Exchange.message_of_fits 0 hf ht
    rw [Option.mem_def.mp hm] at built
    exact Exchange.sendable_message built

theorem Talk.sendable {refreshed : Bool} {x : Exchange} {message : ClientMessage}
    (h : Talk limit fault refreshed n x message calls r n') (fits : x.candidate.fits = true)
    (first : ∀ answer : Except ε ServerStep, (message.call answer).Sendable) :
    ∀ call ∈ calls, call.Sendable := by
  induction h with
  | lost | accepted | rejected =>
    simpa using first _
  | denied => exact List.forall_mem_cons.mpr ⟨first _, by simp [Call.Sendable]⟩
  | @renewed n x message why token calls r n' hu _ ih =>
    have rest := ih fits fun answer =>
      Candidate.sendable_opening fits (fun _ => Option.isSome_some) answer
    simp only [List.forall_mem_cons]
    exact ⟨first _, trivial, trivial, rest⟩
  | answered _ ha _ ih =>
    exact List.forall_mem_cons.mpr ⟨first _,
      ih (Exchange.fits_of_answer ha) fun _ => Exchange.sendable_of_answer ha⟩
  | abandoned => exact List.forall_mem_cons.mpr ⟨first _, by simp [Call.Sendable]⟩

/-- All that a run sends can be sent. -/
theorem Authenticator.sendable_calls (a : Authenticator σ) (transport : Transport σ ε)
    (offered : List Challenge) (s : σ) :
    ∀ call ∈ a.calls transport offered .fresh s, call.Sendable := by
  have ran := a.ran transport offered .fresh s
  generalize a.calls transport offered .fresh s = calls at ran ⊢
  generalize (a.run transport offered (.fresh, s)).1 = r at ran
  generalize (a.run transport offered (.fresh, s)).2.1 = n' at ran
  cases ran with
  | unasked | closed | spent => nofun
  | exhausted _ passed =>
    exact fun call hc => Call.sendable_of_request? (passed.isSome_request? hc)
  | begun _ _ passed fits ready talk =>
    simp only [List.forall_mem_append]
    exact ⟨fun call hc => Call.sendable_of_request? (passed.isSome_request? hc),
      fun call hc => Call.sendable_of_request? (ready.isSome_request? hc),
      talk.sendable fits (Candidate.sendable_opening fits ready.isSome)⟩
  | resumed turn | dropped turn => simp [Negotiation.turn?, Negotiation.fresh] at turn

/-! ### Reading them back -/

inductive Message where
  | start (scheme : Scheme) (initial : Option String)
  | answer (data : String)
  | cancel
  deriving DecidableEq, Repr

def Call.message? : Call ε → Option Message
  | .start scheme initial _ => some (.start scheme initial)
  | .respond data _ => some (.answer data)
  | .cancel _ => some .cancel
  | .get .. | .invalidate _ => none

inductive Line where
  | names (scheme : Scheme) (initial : Option String)
  | data (text : String)
  deriving DecidableEq, Repr

namespace Line

def read (verb line : String) : List String → Line
  | word :: name :: arguments =>
    match if word = verb then Scheme.ofName? name else none with
    | some scheme => .names scheme (arguments.head?.map fun s => if s = "=" then "" else s)
    | none => .data line
  | _ => .data line

end Line

namespace Scheme

theorem isSolid_name (scheme : Scheme) : Text.IsSolid scheme.name := by
  cases scheme <;> decide

theorem ofName?_name (scheme : Scheme) : ofName? scheme.name = some scheme := by
  cases scheme <;> decide

end Scheme

def argument : Option String → String
  | none => ""
  | some message => " " ++ (if message.isEmpty then "=" else message)

/-- The first message is found where it stands. -/
theorem Line.read_names {scheme : Scheme} {initial : Option String}
    (h : ∀ m ∈ initial, Payload.Sendable m) (verb line : String) :
    read verb line (verb :: Text.words (scheme.name ++ argument initial)) =
      .names scheme initial := by
  have name : scheme.name ≠ "" := by cases scheme <;> decide
  cases initial with
  | none =>
    rw [argument, String.append_empty, Text.words_solid scheme.isSolid_name, if_neg name]
    simp [read, Scheme.ofName?_name]
  | some m =>
    have sendable := h m rfl
    rw [argument, ← String.append_assoc, Text.words_spaced scheme.isSolid_name name]
    by_cases hm : m = ""
    · subst hm
      have sign : Text.words "=" = ["="] := by decide
      simp [read, Scheme.ofName?_name, sign]
    · rw [if_neg (by simpa using hm), Text.words_solid sendable.text.isSolid, if_neg hm]
      simp [read, Scheme.ofName?_name, sendable.notSign]

theorem isLine_argument {scheme : Scheme} {initial : Option String}
    (h : ∀ m ∈ initial, Payload.Sendable m) : Text.IsLine (scheme.name ++ argument initial) := by
  refine Text.isLine_append.mpr ⟨scheme.isSolid_name.isLine, ?_⟩
  cases initial with
  | none => decide
  | some m =>
    refine Text.isLine_append.mpr ⟨by decide, ?_⟩
    split
    · decide
    · exact (h m rfl).text.isSolid.isLine

namespace Message

def ofText (text : String) : Message := if text = "*" then .cancel else .answer text

/-- The messages in the lines of a client. Where first messages do not go out `inline` with the
command, the line after the command is one if the client speaks first. -/
def readFrom (inline : Bool) (awaited : Option Scheme) : List Line → List Message
  | [] => []
  | .names scheme initial :: lines =>
    if !inline && scheme.speaksFirst then readFrom inline (some scheme) lines
    else .start scheme initial :: readFrom inline none lines
  | .data text :: lines =>
    match awaited with
    | some scheme => .start scheme (some text) :: readFrom inline none lines
    | none => ofText text :: readFrom inline none lines

def read (inline : Bool) (lines : List Line) : List Message := readFrom inline none lines

end Message
end MailClient.Sasl
