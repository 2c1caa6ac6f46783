import MailClient.Proofs.Sasl.Talk

/-! How many calls a run makes at most, whatever the server answers. Each answer to a challenge
uses up a turn of the scheme, and a token is renewed once, after which the turns are counted
anew. -/
namespace MailClient.Sasl

variable {σ ε : Type} {limit : Duration} {fault : Error → ε} {calls : List (Call ε)}
  {r : Except ε Outcome} {n n' : Negotiation} {x : Exchange}

namespace Call

inductive Kind where
  | message
  | cancel
  | get
  | invalidate
  deriving DecidableEq

def kind : Call ε → Kind
  | .start .. | .respond .. => .message
  | .cancel _ => .cancel
  | .get .. => .get
  | .invalidate _ => .invalidate

@[simp] theorem kind_cancel (answer : Except ε Unit) : (cancel answer).kind = .cancel := rfl

@[simp] theorem kind_get (identity : String) (answer : Except Error String) :
    (get identity limit answer : Call ε).kind = .get := rfl

@[simp] theorem kind_invalidate (identity : String) :
    (invalidate identity : Call ε).kind = .invalidate := rfl

theorem kind_of_request? {call : Call ε} (h : call.request?.isSome = true) : call.kind = .get := by
  obtain ⟨identity, limit, answer, rfl⟩ := of_request? h
  rfl

end Call

@[simp] theorem ClientMessage.call_kind (message : ClientMessage) (answer : Except ε ServerStep) :
    (message.call answer).kind = .message := by
  cases message <;> rfl

def made (kind : Call.Kind) (calls : List (Call ε)) : Nat := (calls.map Call.kind).count kind

theorem made_nil (kind : Call.Kind) : made kind ([] : List (Call ε)) = 0 := rfl

theorem made_cons (kind : Call.Kind) (call : Call ε) :
    made kind (call :: calls) = made kind calls + if call.kind = kind then 1 else 0 := by
  simp [made, List.count_cons]

theorem made_append (kind : Call.Kind) (calls later : List (Call ε)) :
    made kind (calls ++ later) = made kind calls + made kind later := by
  simp [made]

theorem made_le_length (kind : Call.Kind) (calls : List (Call ε)) :
    made kind calls ≤ calls.length := by
  have counted : made kind calls ≤ (calls.map Call.kind).length := List.count_le_length
  rwa [List.length_map] at counted

theorem made_requests {kind : Call.Kind} (hk : kind ≠ .get)
    (h : ∀ call ∈ calls, call.request?.isSome = true) : made kind calls = 0 := by
  apply List.count_eq_zero_of_not_mem
  intro hm
  obtain ⟨call, hc, same⟩ := List.mem_map.mp hm
  rw [Call.kind_of_request? (h call hc)] at same
  exact hk same.symm

/-! ### Requests before the first message -/

theorem PassedOver.length_le {queue : List Candidate} (h : PassedOver limit queue calls) :
    calls.length ≤ queue.length := by
  have asked := congrArg List.length h.requests
  rw [List.length_map, List.length_map] at asked
  rw [asked]
  exact List.length_filter_le ..

theorem Prepared.length_le {candidate : Candidate} {token : Option String}
    (h : Prepared limit candidate token calls) : calls.length ≤ 1 := by
  cases h with
  | plain => exact Nat.zero_le 1
  | granted => exact Nat.le_refl 1

/-! ### Messages -/

def renewals (refreshed : Bool) (x : Exchange) : Nat :=
  if refreshed = false ∧ x.scheme.usesToken = true then 1 else 0

theorem turns_of_usesToken {s : Scheme} (h : s.usesToken = true) : s.turns = 2 := by
  cases s with
  | xoauth2 | oauthBearer => rfl
  | _ => cases h

theorem sent_opened {candidate : Candidate} {token : String} (hf : candidate.fits = true)
    (hu : candidate.scheme.usesToken = true) : (candidate.opened (some token)).sent = 1 := by
  obtain ⟨scheme, credentials⟩ := candidate
  cases scheme with
  | xoauth2 | oauthBearer =>
    cases credentials with
    | token user => rfl
    | _ => cases hf
  | _ => cases hu

/-- A message follows for each turn that is left, and two for a token that is renewed. -/
theorem Talk.bounded {refreshed : Bool} {message : ClientMessage}
    (h : Talk limit fault refreshed n x message calls r n') (hf : x.candidate.fits = true) :
    made .message calls ≤ 1 + (x.scheme.turns - x.sent.toNat) + 2 * renewals refreshed x ∧
    made .cancel calls ≤ 1 ∧
    made .invalidate calls ≤ renewals refreshed x ∧
    made .get calls ≤ renewals refreshed x := by
  induction h with
  | lost | accepted | rejected =>
    simp only [made_cons, made_nil, ClientMessage.call_kind, reduceCtorEq, if_true, if_false]
    omega
  | @denied n x message why e hu =>
    have renewable : renewals false x = 1 := if_pos ⟨rfl, hu⟩
    simp only [made_cons, made_nil, ClientMessage.call_kind, Call.kind_get, Call.kind_invalidate,
      reduceCtorEq, if_true, if_false, renewable]
    omega
  | @renewed n x message why token calls r n' hu talk ih =>
    have renewable : renewals false x = 1 := if_pos ⟨rfl, hu⟩
    have spent : renewals true (x.candidate.opened (some token)) = 0 := rfl
    have turns : (x.candidate.opened (some token)).scheme.turns = 2 := turns_of_usesToken hu
    have sent : (x.candidate.opened (some token)).sent.toNat = 1 := by
      rw [sent_opened hf hu]
      rfl
    obtain ⟨hm, hc, hi, hg⟩ := ih hf
    simp only [made_cons, ClientMessage.call_kind, Call.kind_get, Call.kind_invalidate,
      reduceCtorEq, if_true, if_false, renewable]
    omega
  | @answered refreshed n x message data reply x' calls r n' hc ha talk ih =>
    obtain ⟨scheme, left, sent⟩ := Negotiation.sent_lt_of_answer hc ha
    have same : renewals refreshed x' = renewals refreshed x := by
      unfold renewals
      rw [scheme]
    obtain ⟨hm, hc, hi, hg⟩ := ih ((Exchange.candidate_of_answer ha).symm ▸ hf)
    rw [scheme, sent, same] at hm
    simp only [made_cons, ClientMessage.call_kind, reduceCtorEq, if_true, if_false]
    omega
  | abandoned =>
    simp only [made_cons, made_nil, ClientMessage.call_kind, Call.kind_cancel, reduceCtorEq,
      if_true, if_false]
    omega

namespace Authenticator

structure Bounded (selected : List Candidate) (calls : List (Call ε)) : Prop where
  messages : made .message calls ≤ 4
  cancels : made .cancel calls ≤ 1
  invalidations : made .invalidate calls ≤ 1
  requests : made .get calls ≤ selected.length + 1

theorem renewals_le (refreshed : Bool) (x : Exchange) : renewals refreshed x ≤ 1 := by
  unfold renewals
  split <;> omega

/-- The message with which an exchange begins and those that follow are four at most: a token
scheme begins with a message of its own, and others have no token to renew. -/
theorem messages_begun {candidate : Candidate} {token : Option String}
    (hf : candidate.fits = true)
    (ht : candidate.scheme.usesToken = true → token.isSome = true) :
    1 + (candidate.scheme.turns - (candidate.opened token).sent.toNat) +
      2 * renewals false (candidate.opened token) ≤ 4 := by
  have few := Negotiation.turns_le_two candidate.scheme
  by_cases hu : candidate.scheme.usesToken = true
  · obtain ⟨t, rfl⟩ := Option.isSome_iff_exists.mp (ht hu)
    have renewable := renewals_le false (candidate.opened (some t))
    rw [sent_opened hf hu]
    simp only [UInt8.toNat_one]
    omega
  · have lasting : renewals false (candidate.opened token) = 0 := if_neg fun h => hu h.2
    rw [lasting]
    omega

/-- Whatever the server makes of the messages, however the run begins and whatever it is offered,
it makes no more calls than these. -/
theorem bounded_calls (a : Authenticator σ) (transport : Transport σ ε) (offered : List Challenge)
    (n : Negotiation) (s : σ) :
    Bounded (a.strategy a.host offered) (a.calls transport offered n s) := by
  have ran := ran a transport offered n s
  generalize a.calls transport offered n s = calls at ran ⊢
  generalize (a.run transport offered (n, s)).1 = r at ran
  generalize (a.run transport offered (n, s)).2.1 = n' at ran
  cases ran with
  | unasked | closed | spent => constructor <;> simp [made_nil]
  | exhausted _ passed =>
    have few := passed.length_le
    have requests := made_le_length .get calls
    have quiet : ∀ kind, kind ≠ .get → made kind calls = 0 := by
      intro kind hk
      exact made_requests hk fun call hc => passed.isSome_request? hc
    constructor
    · rw [quiet _ (by decide)]
      omega
    · rw [quiet _ (by decide)]
      omega
    · rw [quiet _ (by decide)]
      omega
    · omega
  | @begun before chosen rest skipped token prepared calls r n' _ split passed fits ready talk =>
    have skips := passed.length_le
    have prepares := ready.length_le
    have renewable := renewals_le false (chosen.opened token)
    have begun := messages_begun fits ready.isSome
    obtain ⟨hm, hc, hi, hg⟩ := talk.bounded fits
    rw [Candidate.opened_scheme] at hm
    have quiet : ∀ kind, kind ≠ .get →
        made kind (skipped ++ (prepared ++ calls)) = made kind calls := by
      intro kind hk
      rw [made_append, made_append, made_requests hk fun call hc => passed.isSome_request? hc,
        made_requests hk fun call hc => ready.isSome_request? hc, Nat.zero_add, Nat.zero_add]
    constructor
    · rw [quiet _ (by decide)]
      omega
    · rw [quiet _ (by decide)]
      omega
    · rw [quiet _ (by decide)]
      omega
    · have skipped_le := made_le_length .get skipped
      have prepared_le := made_le_length .get prepared
      rw [made_append, made_append, split, List.length_append, List.length_cons]
      omega
  | @resumed x c reply x' calls r n' _ unfinished answer talk =>
    obtain ⟨scheme, left, sent⟩ := Negotiation.sent_lt_of_answer unfinished answer
    have few := Negotiation.turns_le_two x.scheme
    have renewable := renewals_le false x'
    obtain ⟨hm, hc, hi, hg⟩ := talk.bounded (Exchange.fits_of_answer answer)
    rw [scheme, sent] at hm
    constructor <;> omega
  | dropped => constructor <;> simp [made_cons, made_nil]

end Authenticator
end MailClient.Sasl
