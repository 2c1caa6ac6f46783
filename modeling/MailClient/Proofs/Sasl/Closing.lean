import MailClient.Proofs.Sasl.Surroundings
import MailClient.Proofs.Sasl.Talk

/-! Whether the exchanges of a run are brought to their end. Where each exchange ends with what the
server makes of a message, or with giving up, a run that fails for a reason of its own leaves no
exchange open. -/
namespace MailClient.Sasl

variable {σ ε : Type} {transport : Transport σ ε} {tokens : TokenProvider σ} {calls : List (Call ε)}
  {s s' : σ}

def Call.Made (transport : Transport σ ε) (tokens : TokenProvider σ) : Call ε → σ → σ → Prop
  | .start scheme initial answer, s, s' => transport.start scheme initial s = (answer, s')
  | .respond data answer, s, s' => transport.respond data s = (answer, s')
  | .cancel answer, s, s' => transport.cancel s = (answer, s')
  | .get identity limit answer, s, s' => tokens.get identity limit s = (answer, s')
  | .invalidate identity, s, s' => tokens.invalidate identity s = s'

inductive Path (transport : Transport σ ε) (tokens : TokenProvider σ) :
    σ → List (Call ε) → σ → Prop where
  | nil (s : σ) : Path transport tokens s [] s
  | cons {call : Call ε} {s s₁ : σ} {calls : List (Call ε)} {s' : σ} :
      call.Made transport tokens s s₁ → Path transport tokens s₁ calls s' →
      Path transport tokens s (call :: calls) s'

namespace Path

theorem single {call : Call ε} (h : call.Made transport tokens s s') :
    Path transport tokens s [call] s' := .cons h (.nil s')

theorem append {later : List (Call ε)} {s₁ : σ} (h : Path transport tokens s calls s₁)
    (h' : Path transport tokens s₁ later s') : Path transport tokens s (calls ++ later) s' := by
  induction h with
  | nil => exact h'
  | cons made _ ih => exact .cons made (ih h')

theorem of_append {later : List (Call ε)} (h : Path transport tokens s (calls ++ later) s') :
    ∃ s₁, Path transport tokens s calls s₁ ∧ Path transport tokens s₁ later s' := by
  induction calls generalizing s with
  | nil => exact ⟨s, .nil s, h⟩
  | cons call calls ih =>
    cases h with
    | cons made rest =>
      obtain ⟨s₁, first, second⟩ := ih rest
      exact ⟨s₁, .cons made first, second⟩

theorem of_message {message : ClientMessage} {answer : Except ε ServerStep}
    (h : Path transport tokens s (message.call answer :: calls) s') :
    ∃ s₁, Authenticator.send transport message s = (answer, s₁) ∧
      Path transport tokens s₁ calls s' := by
  cases h with
  | cons made rest =>
    cases message with
    | start scheme initial => exact ⟨_, made, rest⟩
    | answer data => exact ⟨_, made, rest⟩

end Path

/-- Over surroundings that record, all that is done adds its calls to the record. -/
theorem within_recorded (transport : Transport σ ε) (tokens : TokenProvider σ) :
    transport.recorded.Within (tokens.recorded ε)
      (fun x y => ∃ calls, y.2 = x.2 ++ calls ∧ Path transport tokens x.1 calls y.1)
      fun _ => True where
  refl x := ⟨[], (List.append_nil _).symm, .nil x.1⟩
  trans := by
    rintro x y z ⟨first, hy, path⟩ ⟨second, hz, path'⟩
    exact ⟨first ++ second, by rw [hz, hy, List.append_assoc], path.append path'⟩
  start scheme initial x := ⟨_, rfl, .single rfl⟩
  begins _ := trivial
  respond data x _ := ⟨_, rfl, .single rfl⟩
  goesOn _ _ := trivial
  cancel _ := ⟨_, rfl, .single rfl⟩
  get identity limit x := ⟨_, rfl, .single rfl⟩
  begun_get _ _ _ _ := trivial
  invalidate identity x := ⟨_, rfl, .single rfl⟩

/-- The calls of a run lead to where the run leads. -/
theorem Authenticator.path_run (a : Authenticator σ) (transport : Transport σ ε)
    (offered : List Challenge) (s : σ) :
    Path transport a.tokens s (a.calls transport offered .fresh s)
      (a.run transport offered (.fresh, s)).2.2 := by
  obtain ⟨calls, same, -⟩ := a.ran_recorded transport offered .fresh s []
  obtain ⟨calls', logged, path⟩ := @Authenticator.within_run _ _ _ _ _ (a.recorded ε) offered
    (within_recorded transport a.tokens) (s, [])
  rw [same] at logged path
  unfold Authenticator.calls
  rw [same]
  exact logged ▸ path

/-! ### Exchanges -/

def ServerStep.Leaves (closed engaged : σ → Prop) : ServerStep → σ → Prop
  | .challenge _, s => engaged s
  | .success, s | .rejected _, s => closed s

structure Transport.Closes (transport : Transport σ ε) (tokens : TokenProvider σ)
    (closed engaged : σ → Prop) : Prop where
  start {scheme initial step} {s s' : σ} : closed s →
    transport.start scheme initial s = (.ok step, s') → step.Leaves closed engaged s'
  respond {data step} {s s' : σ} : engaged s →
    transport.respond data s = (.ok step, s') → step.Leaves closed engaged s'
  cancel {s s' : σ} : engaged s → transport.cancel s = (.ok (), s') → closed s'
  get (identity limit) {s : σ} : closed s → closed (tokens.get identity limit s).2
  invalidate (identity) {s : σ} : closed s → closed (tokens.invalidate identity s)
  send_error {message e} {s s' : σ} (why : Error) :
    Authenticator.send transport message s = (.error e, s') → e ≠ transport.ofAuth why
  cancel_error {e} {s s' : σ} (why : Error) :
    transport.cancel s = (.error e, s') → e ≠ transport.ofAuth why

/-- The run ends with success, or with an error of its own. -/
def Settled (fault : Error → ε) : Except ε Outcome → Prop
  | .ok _ => True
  | .error e => ∃ why, e = fault why

variable {closed engaged : σ → Prop} {limit : Duration} {fault : Error → ε} {r : Except ε Outcome}
  {n n' : Negotiation}

/-- A message that begins a scheme needs no exchange, and an answer needs one. -/
def ClientMessage.Due (closed engaged : σ → Prop) : ClientMessage → σ → Prop
  | .start .., s => closed s
  | .answer _, s => engaged s

namespace Transport.Closes

theorem send (ht : transport.Closes tokens closed engaged) {message : ClientMessage}
    {step : ServerStep} (hm : message.Due closed engaged s)
    (h : Authenticator.send transport message s = (.ok step, s')) :
    step.Leaves closed engaged s' := by
  cases message with
  | start scheme initial => exact ht.start hm h
  | answer data => exact ht.respond hm h

theorem requests (ht : transport.Closes tokens closed engaged) (hs : closed s)
    (hc : ∀ call ∈ calls, call.request?.isSome = true) (h : Path transport tokens s calls s') :
    closed s' := by
  induction h with
  | nil => exact hs
  | cons made _ ih =>
    obtain ⟨identity, limit, answer, rfl⟩ := Call.of_request? (hc _ (List.mem_cons_self ..))
    apply ih
    · have asked := ht.get identity limit hs
      rw [show tokens.get identity limit _ = _ from made] at asked
      exact asked
    · exact fun call hm => hc call (List.mem_cons_of_mem _ hm)

/-- By the time that an exchange settles it has been closed. -/
theorem talk (ht : transport.Closes tokens closed engaged) {refreshed : Bool} {x : Exchange}
    {message : ClientMessage} (hm : message.Due closed engaged s)
    (h : Talk limit transport.ofAuth refreshed n x message calls r n')
    (path : Path transport tokens s calls s') (settled : Settled transport.ofAuth r) :
    closed s' := by
  induction h generalizing s with
  | lost =>
    obtain ⟨s₁, sent, -⟩ := path.of_message
    obtain ⟨why, own⟩ := settled
    exact absurd own (ht.send_error why sent)
  | accepted =>
    obtain ⟨s₁, sent, rest⟩ := path.of_message
    cases rest
    exact ht.send hm sent
  | rejected =>
    obtain ⟨s₁, sent, rest⟩ := path.of_message
    cases rest
    exact ht.send hm sent
  | denied =>
    obtain ⟨s₁, sent, rest⟩ := path.of_message
    cases rest with
    | cons invalidated rest =>
      cases invalidated
      exact ht.requests (ht.invalidate _ (ht.send hm sent)) (by simp [Call.request?]) rest
  | @renewed _ x _ _ token _ _ _ _ _ ih =>
    obtain ⟨s₁, sent, rest⟩ := path.of_message
    cases rest with
    | cons invalidated rest =>
      cases invalidated
      obtain ⟨s₂, asked, rest⟩ := @Path.of_append _ _ _ _ [.get x.user limit (.ok token)] _ _ _ rest
      have free := ht.invalidate x.user (ht.send hm sent)
      exact ih (ht.requests free (by simp [Call.request?]) asked) rest settled
  | answered _ _ _ ih =>
    obtain ⟨s₁, sent, rest⟩ := path.of_message
    exact ih (ht.send hm sent) rest settled
  | @abandoned _ _ _ message _ _ answer =>
    obtain ⟨s₁, sent, rest⟩ := path.of_message
    cases rest with
    | cons cancelled rest =>
      cases rest
      cases answer with
      | ok => exact ht.cancel (ht.send hm sent) cancelled
      | error e =>
        obtain ⟨why, own⟩ := settled
        exact absurd own (ht.cancel_error why cancelled)

/-- A run that settles leaves no exchange open. -/
theorem run (a : Authenticator σ) (ht : transport.Closes a.tokens closed engaged)
    (offered : List Challenge) (hs : closed s)
    (settled : Settled transport.ofAuth (a.run transport offered (.fresh, s)).1) :
    closed (a.run transport offered (.fresh, s)).2.2 := by
  have path := a.path_run transport offered s
  have ran := a.ran transport offered .fresh s
  generalize a.calls transport offered .fresh s = calls at path ran
  generalize (a.run transport offered (.fresh, s)).2.2 = s' at path ⊢
  generalize (a.run transport offered (.fresh, s)).1 = r at ran settled
  generalize (a.run transport offered (.fresh, s)).2.1 = n' at ran
  cases ran with
  | unasked | closed | spent =>
    cases path
    exact hs
  | exhausted _ passed => exact ht.requests hs (fun call hc => passed.isSome_request? hc) path
  | begun _ _ passed _ ready talk =>
    obtain ⟨s₁, skipping, path⟩ := path.of_append
    obtain ⟨s₂, preparing, path⟩ := path.of_append
    have free := ht.requests hs (fun call hc => passed.isSome_request? hc) skipping
    have free := ht.requests free (fun call hc => ready.isSome_request? hc) preparing
    refine ht.talk ?_ talk path settled
    exact free
  | resumed turn | dropped turn => simp [Negotiation.turn?, Negotiation.fresh] at turn

end Transport.Closes
end MailClient.Sasl
