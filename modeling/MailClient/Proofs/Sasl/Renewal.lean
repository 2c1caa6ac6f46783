import MailClient.Proofs.Sasl.Fallback

/-! A token that the server rejects is replaced once. A second rejection ends the run, and so does
the first where there is no token to replace. -/
namespace MailClient.Sasl

variable {σ ε : Type} {limit : Duration} {fault : Error → ε} {chosen : Candidate}
  {call : Call ε} {calls later : List (Call ε)} {why : String} {r : Except ε Outcome}
  {n n' : Negotiation}

namespace Call

def Rejected (call : Call ε) (why : String) : Prop := call.step? = some (.ok (.rejected why))

@[simp] theorem rejected_message (message : ClientMessage) (answer : Except ε ServerStep) :
    (message.call answer).Rejected why ↔ answer = .ok (.rejected why) := by
  simp [Rejected]

theorem Rejected.unique {why' : String} (h : call.Rejected why) (h' : call.Rejected why') :
    why = why' := by
  have same := h.symm.trans h'
  simpa using same

@[simp] theorem not_rejected_cancel (answer : Except ε Unit) : ¬(cancel answer).Rejected why :=
  nofun

@[simp] theorem not_rejected_get (identity : String) (answer : Except Error String) :
    ¬(get identity limit answer : Call ε).Rejected why :=
  nofun

@[simp] theorem not_rejected_invalidate (identity : String) :
    ¬(invalidate identity : Call ε).Rejected why :=
  nofun

def invalidated? : Call ε → Option String
  | .invalidate identity => some identity
  | _ => none

@[simp] theorem invalidated?_invalidate (identity : String) :
    (invalidate identity : Call ε).invalidated? = some identity := rfl

@[simp] theorem invalidated?_message (message : ClientMessage) (answer : Except ε ServerStep) :
    (message.call answer).invalidated? = none := by
  cases message <;> rfl

@[simp] theorem invalidated?_cancel (answer : Except ε Unit) :
    (cancel answer).invalidated? = none := rfl

@[simp] theorem invalidated?_get (identity : String) (answer : Except Error String) :
    (get identity limit answer : Call ε).invalidated? = none := rfl

theorem invalidated?_of_atTransport (h : call.atTransport = true) : call.invalidated? = none := by
  cases call with
  | invalidate => cases h
  | _ => rfl

theorem invalidated?_of_rejected (h : call.Rejected why) : call.invalidated? = none := by
  cases call with
  | invalidate => cases h
  | _ => rfl

end Call

def Unrejected (calls : List (Call ε)) : Prop := ∀ call ∈ calls, ∀ why, ¬call.Rejected why

theorem unrejected_cons (hc : ∀ why, ¬call.Rejected why) :
    Unrejected (call :: calls) ↔ Unrejected calls := by
  simp [Unrejected, hc]

def Ends (fault : Error → ε) (why : String) (after : List (Call ε)) (r : Except ε Outcome)
    (n' : Negotiation) : Prop :=
  after = [] ∧ r = .error (fault (.rejected why)) ∧ n' = .failed

/-- The rejected token is given up and another one asked for. Without one this is the end, and with
one the scheme begins again; no more is asked of the provider then. -/
def Renews (limit : Duration) (fault : Error → ε) (chosen : Candidate) (after : List (Call ε))
    (r : Except ε Outcome) (n' : Negotiation) : Prop :=
  ∃ answer later,
    after = .invalidate chosen.user :: .get chosen.user limit answer :: later ∧
    match answer with
    | .error e => later = [] ∧ r = .error (fault e) ∧ n' = .failed
    | .ok token => ∃ answer rest,
      later = .start chosen.scheme (chosen.opening (some token)) answer :: rest ∧
      ∀ call ∈ rest, call.atTransport = true

structure RenewsOnce (limit : Duration) (fault : Error → ε) (chosen : Candidate)
    (calls : List (Call ε)) (r : Except ε Outcome) (n' : Negotiation) : Prop where
  once : (calls.filterMap Call.invalidated?).length ≤ 1
  cause {before identity after} : calls = before ++ .invalidate identity :: after →
    chosen.scheme.usesToken = true ∧ identity = chosen.user ∧
    ∃ earlier call why, before = earlier ++ [call] ∧ call.Rejected why ∧ Unrejected earlier
  first {before call why after} : calls = before ++ call :: after → call.Rejected why →
    Unrejected before →
    if chosen.scheme.usesToken then Renews limit fault chosen after r n'
    else Ends fault why after r n'
  again {before call why after} : calls = before ++ call :: after → call.Rejected why →
    ¬Unrejected before → Ends fault why after r n'

/-! ### When no token is left to replace -/

def Concludes (fault : Error → ε) (calls : List (Call ε)) (r : Except ε Outcome)
    (n' : Negotiation) : Prop :=
  ∀ {before call why after}, calls = before ++ call :: after → call.Rejected why →
    Ends fault why after r n'

theorem concludes_nil : Concludes fault [] r n' := by
  intro before call why after split
  simp at split

theorem Concludes.cons (hc : ∀ why, ¬call.Rejected why) (h : Concludes fault calls r n') :
    Concludes fault (call :: calls) r n' := by
  intro before rejected why after split hr
  rcases List.cons_eq_append_iff.mp split with ⟨rfl, here⟩ | ⟨before, rfl, further⟩
  · cases here
    exact absurd hr (hc why)
  · exact h further hr

theorem concludes_rejected (hr : call.Rejected why) :
    Concludes fault [call] (.error (fault (.rejected why))) .failed := by
  intro before rejected why' after split hr'
  rcases List.cons_eq_append_iff.mp split with ⟨rfl, here⟩ | ⟨before, rfl, further⟩
  · cases here
    exact ⟨rfl, by rw [hr.unique hr'], rfl⟩
  · simp at further

/-- With the token already replaced, or none to replace, only the transport is called. -/
theorem Talk.concludes {refreshed : Bool} {x : Exchange} {message : ClientMessage}
    (h : Talk limit fault refreshed n x message calls r n')
    (hr : refreshed = true ∨ x.scheme.usesToken = false) :
    Concludes fault calls r n' ∧ ∀ call ∈ calls, call.atTransport = true := by
  induction h with
  | lost => exact ⟨concludes_nil.cons (by simp), by simp⟩
  | accepted => exact ⟨concludes_nil.cons (by simp), by simp⟩
  | rejected => exact ⟨concludes_rejected (by simp), by simp⟩
  | denied hu => simp [hu] at hr
  | renewed hu => simp [hu] at hr
  | answered hc ha _ ih =>
    have scheme := (Negotiation.sent_lt_of_answer hc ha).1
    obtain ⟨concluded, atTransport⟩ := ih (by rwa [scheme])
    exact ⟨concluded.cons (by simp), by simpa using atTransport⟩
  | abandoned =>
    exact ⟨Concludes.cons (by simp) (concludes_nil.cons (by simp)), by simp⟩

/-! ### Runs -/

namespace RenewsOnce

theorem nil : RenewsOnce limit fault chosen [] r n' where
  once := by simp
  cause split := by simp at split
  first split := by simp at split
  again split := by simp at split

/-- Calls that are neither rejected nor give up a token change nothing. -/
theorem cons (hc : ∀ why, ¬call.Rejected why) (hi : call.invalidated? = none)
    (h : RenewsOnce limit fault chosen calls r n') :
    RenewsOnce limit fault chosen (call :: calls) r n' where
  once := by
    rw [List.filterMap_cons_none hi]
    exact h.once
  cause := by
    intro before identity after split
    rcases List.cons_eq_append_iff.mp split with ⟨rfl, here⟩ | ⟨before, rfl, further⟩
    · cases here
      cases hi
    · obtain ⟨hu, hidentity, earlier, rejected, why, rfl, hr, unrejected⟩ := h.cause further
      exact ⟨hu, hidentity, call :: earlier, rejected, why, rfl, hr,
        (unrejected_cons hc).mpr unrejected⟩
  first := by
    intro before rejected why after split hr unrejected
    rcases List.cons_eq_append_iff.mp split with ⟨rfl, here⟩ | ⟨before, rfl, further⟩
    · cases here
      exact absurd hr (hc why)
    · exact h.first further hr ((unrejected_cons hc).mp unrejected)
  again := by
    intro before rejected why after split hr before_rejected
    rcases List.cons_eq_append_iff.mp split with ⟨rfl, here⟩ | ⟨before, rfl, further⟩
    · cases here
      exact absurd hr (hc why)
    · exact h.again further hr fun unrejected =>
        before_rejected ((unrejected_cons hc).mpr unrejected)

theorem of_concludes (hu : chosen.scheme.usesToken = false) (h : Concludes fault calls r n')
    (ht : ∀ call ∈ calls, call.atTransport = true) :
    RenewsOnce limit fault chosen calls r n' where
  once := by
    rw [List.filterMap_eq_nil_iff.mpr fun call hc => Call.invalidated?_of_atTransport (ht call hc)]
    simp
  cause := by
    intro before identity after split
    have atTransport := ht (.invalidate identity) (by simp [split])
    cases atTransport
  first := by
    intro before call why after split hr _
    simpa [hu] using h split hr
  again split hr _ := h split hr

/-- The first rejection of a token. -/
theorem rejected {answer : Except Error String} (hu : chosen.scheme.usesToken = true)
    (hr : call.Rejected why)
    (hl : Renews limit fault chosen
      (.invalidate chosen.user :: .get chosen.user limit answer :: later) r n')
    (h : Concludes fault later r n') (ht : ∀ call ∈ later, call.atTransport = true) :
    RenewsOnce limit fault chosen
      (call :: .invalidate chosen.user :: .get chosen.user limit answer :: later) r n' where
  once := by
    have others : ∀ call ∈ later, call.invalidated? = none := fun call hc =>
      Call.invalidated?_of_atTransport (ht call hc)
    rw [List.filterMap_cons_none (Call.invalidated?_of_rejected hr)]
    simpa using others
  cause := by
    intro before identity after split
    rcases List.cons_eq_append_iff.mp split with ⟨rfl, here⟩ | ⟨before₁, rfl, split₁⟩
    · cases here
      cases hr
    rcases List.cons_eq_append_iff.mp split₁ with ⟨rfl, here⟩ | ⟨before₂, rfl, split₂⟩
    · cases here
      exact ⟨hu, rfl, [], call, why, rfl, hr, by simp [Unrejected]⟩
    rcases List.cons_eq_append_iff.mp split₂ with ⟨rfl, here⟩ | ⟨before₃, rfl, split₃⟩
    · cases here
    · have atTransport := ht (.invalidate identity) (by simp [split₃])
      cases atTransport
  first := by
    intro before call' why' after split hr' unrejected
    rcases List.cons_eq_append_iff.mp split with ⟨rfl, here⟩ | ⟨before, rfl, _⟩
    · cases here
      rw [if_pos hu]
      exact hl
    · exact absurd hr (unrejected call (by simp) why)
  again := by
    intro before call' why' after split hr' rejected
    rcases List.cons_eq_append_iff.mp split with ⟨rfl, _⟩ | ⟨before, rfl, further⟩
    · exact absurd (by simp [Unrejected]) rejected
    · exact Concludes.cons (by simp) (Concludes.cons (by simp) h) further hr'

theorem of_talk {x : Exchange} {message : ClientMessage}
    (h : Talk limit fault false n x message calls r n') :
    RenewsOnce limit fault x.candidate calls r n' := by
  cases hu : x.scheme.usesToken with
  | false =>
    obtain ⟨concluded, atTransport⟩ := h.concludes (.inr hu)
    exact .of_concludes hu concluded atTransport
  | true =>
    generalize hf : false = refreshed at h
    induction h with
    | lost => exact nil.cons (by simp) (by simp)
    | accepted => exact nil.cons (by simp) (by simp)
    | rejected done => simp [← hf, hu] at done
    | denied _ =>
      exact .rejected hu ((Call.rejected_message _ _).mpr rfl) ⟨_, _, rfl, rfl, rfl, rfl⟩
        concludes_nil (by simp)
    | renewed _ talk _ =>
      obtain ⟨concluded, atTransport⟩ := talk.concludes (.inl rfl)
      obtain ⟨answer, rest, rfl, _⟩ := talk.serves
      have renews := by simpa using atTransport
      exact .rejected hu ((Call.rejected_message _ _).mpr rfl)
        ⟨_, _, rfl, answer, rest, rfl, renews⟩ concluded atTransport
    | answered hc ha _ ih =>
      have scheme := (Negotiation.sent_lt_of_answer hc ha).1
      have candidate := Exchange.candidate_of_answer ha
      have further := ih (by rw [scheme]; exact hu) hf
      rw [candidate] at further
      exact further.cons (by simp) (by simp)
    | abandoned =>
      exact cons (by simp) (by simp) (cons (by simp) (by simp) nil)

/-- The requests for a token before the first message are met by no rejection. -/
theorem of_requests {requests : List (Call ε)}
    (hq : ∀ call ∈ requests, call.request?.isSome = true)
    (h : RenewsOnce limit fault chosen calls r n') :
    RenewsOnce limit fault chosen (requests ++ calls) r n' := by
  induction requests with
  | nil => exact h
  | cons request rest ih =>
    obtain ⟨identity, limit, answer, rfl⟩ := Call.of_request? (hq request (by simp))
    have further := ih fun call hc => hq call (by simp [hc])
    exact further.cons (by simp) (by simp)

end RenewsOnce

namespace Authenticator

/-- A run that begins meets the first rejection with another token, once, if there is a token to
replace. A run that does not begin only asks for tokens. -/
theorem renewsOnce (a : Authenticator σ) (transport : Transport σ ε) (offered : List Challenge)
    (s : σ) :
    (∀ call ∈ a.calls transport offered .fresh s, call.request?.isSome = true) ∨
    ∃ chosen, Opens a.limit (a.strategy a.host offered) chosen
        (a.calls transport offered .fresh s) ∧
      RenewsOnce a.limit transport.ofAuth chosen (a.calls transport offered .fresh s)
        (a.run transport offered (.fresh, s)).1 (a.run transport offered (.fresh, s)).2.1 := by
  have ran := ran a transport offered .fresh s
  generalize a.calls transport offered .fresh s = calls at ran ⊢
  generalize (a.run transport offered (.fresh, s)).1 = r at ran ⊢
  generalize (a.run transport offered (.fresh, s)).2.1 = n at ran ⊢
  cases ran with
  | unasked => exact .inl (by simp)
  | closed _ hp => cases hp
  | exhausted _ passed => exact .inl fun call hc => passed.isSome_request? hc
  | begun _ split passed fits ready talk =>
    rw [split]
    refine .inr ⟨_, .of_talk passed fits ready talk, ?_⟩
    have begun := RenewsOnce.of_requests (fun call hc => ready.isSome_request? hc) (.of_talk talk)
    exact .of_requests (fun call hc => passed.isSome_request? hc) begun
  -- A negotiation that is fresh has no exchange to go on with.
  | spent ht | resumed ht | dropped ht => cases ht

end Authenticator
end MailClient.Sasl
