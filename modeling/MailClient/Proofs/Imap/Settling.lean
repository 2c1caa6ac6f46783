import MailClient.Proofs.Imap.Correlation
import MailClient.Proofs.Sasl.Closing

/-! What an authentication leaves open. It sends its commands one after the other, and where it
ends with success or with an error of the authentication itself, each has been completed. -/
namespace MailClient.Imap

namespace Error

def isAuth : Error → Bool
  | .auth _ => true
  | _ => false

/-- Whether the error is what the server, or the authentication, says to a request. All others are
of the connection. -/
def isVerdict : Error → Bool
  | .auth _ | .no _ | .bad _ => true
  | _ => false

variable {e : Error}

theorem isAuth_of_not_isVerdict (h : e.isVerdict = false) : e.isAuth = false := by
  cases e with
  | auth => cases h
  | _ => rfl

theorem ne_auth (h : e.isAuth = false) (why : Sasl.Error) : e ≠ .auth why := by
  rintro rfl
  cases h

end Error

namespace Connection

variable {c₀ c c' : Connection} {e : Error} {limit : Duration} {tag : Tag} {command : Command}
  {r : Response} {open? : Option Tag}

/-! ### Errors of single steps -/

theorem isVerdict_write {bytes : Bytes} {entry : Entry} (h : write bytes entry c = (.error e, c')) :
    e.isVerdict = false := by
  obtain ⟨_, -, ⟨f, rfl⟩ | rfl⟩ := write_error h
  · rfl
  · rfl

theorem isVerdict_sendLine {line : String} (h : sendLine line c = (.error e, c')) :
    e.isVerdict = false := by
  unfold sendLine at h
  split at h
  · cases h
    rfl
  · exact isVerdict_write h

theorem isVerdict_send (h : send tag command c = (.error e, c')) : e.isVerdict = false := by
  unfold send at h
  split at h
  · cases h
    rfl
  · split at h
    · cases h
      rfl
    · split at h
      · cases h
        rfl
      · dsimp only at h
        split at h
        next hw =>
          cases h
          exact isVerdict_write hw
        · cases h

theorem isVerdict_nextResponse (h : nextResponse limit c = (.error e, c')) :
    e.isVerdict = false := by
  fun_induction nextResponse limit c with
  | case1 c e₁ c₁ hr =>
    cases h
    unfold receive at hr
    dsimp only at hr
    split at hr <;> cases hr <;> rfl
  | case2 c c₁ text t hr hp e₁ c₂ hs =>
    cases h
    exact isVerdict_write hs
  | case3 c c₁ text t hr hp c₂ hs _ _ ih => exact ih h
  | case4 =>
    obtain ⟨-, tag, rfl⟩ := settle_error h
    rfl

theorem isVerdict_readResponse (h : readResponse limit c = (.error e, c')) :
    e.isVerdict = false := by
  unfold readResponse at h
  split at h
  · cases h
    rfl
  · exact isVerdict_nextResponse h

theorem isVerdict_collect {before : List Response}
    (h : collect tag before c = (.error e, c')) : e.isVerdict = false := by
  fun_induction collect tag before c with
  | case1 before c e₁ c₁ hr =>
    cases h
    exact isVerdict_readResponse hr
  | case2 =>
    cases h
    rfl
  | case3 => cases h
  | case4 before c completed status code text c₁ hr _ _ ih => exact ih h
  | case5 before c u c₁ hr _ ih => exact ih h

theorem isVerdict_readUntil (h : readUntil tag c = (.error e, c')) : e.isVerdict = false := by
  unfold readUntil at h
  split at h
  · exact isVerdict_collect h
  · cases h
    rfl

theorem isAuth_execute (h : execute command c = (.error e, c')) : e.isAuth = false := by
  unfold execute at h
  dsimp only at h
  split at h
  next hs =>
    cases h
    exact Error.isAuth_of_not_isVerdict (isVerdict_send hs)
  · split at h
    next hr =>
      cases h
      exact Error.isAuth_of_not_isVerdict (isVerdict_readUntil hr)
    · split at h
      next done _ _ _ he =>
        cases h
        unfold Completion.error? at he
        split at he <;> cases he <;> rfl
      · cases h

/-! ### One command after the other -/

/-- All commands that have been sent since `c₀` have been completed, but for the one that may be
under way without anything of it in the queue. -/
structure Between (open? : Option Tag) (c₀ c : Connection) : Prop where
  usable : c.usable = c₀.usable
  outstanding : ∀ tag ∈ c.outstanding, tag ∈ c₀.outstanding ∨ open? = some tag
  pending : c.pending = c₀.pending
  sent : ∃ log, c.transcript = c₀.transcript ++ log ∧ ∀ tag command, .command tag command ∈ log →
    c.pending = none ∧ (tag ∈ c.outstanding → open? = some tag)
  clear : open?.isSome = true → c.pending = none

namespace Between

theorem refl (c : Connection) : Between none c c :=
  ⟨rfl, fun _ => .inl, rfl, ⟨[], by simp, by simp⟩, by simp⟩

/-- Neither clocks nor counters matter. -/
theorem congr (h : Between open? c₀ c) (usable : c'.usable = c.usable)
    (outstanding : c'.outstanding = c.outstanding) (pending : c'.pending = c.pending)
    (transcript : c'.transcript = c.transcript) : Between open? c₀ c' := by
  constructor
  · rw [usable, h.usable]
  · rw [outstanding]
    exact h.outstanding
  · rw [pending, h.pending]
  · rw [transcript, outstanding, pending]
    exact h.sent
  · rw [pending]
    exact h.clear

theorem nextTag (h : Between open? c₀ c) : Between open? c₀ c.nextTag.2 := h.congr rfl rfl rfl rfl

theorem line {line : String} {u : Unit} (h : Between open? c₀ c)
    (hs : sendLine line c = (.ok u, c')) : Between open? c₀ c' := by
  obtain ⟨-, stream, rfl⟩ := sendLine_ok hs
  obtain ⟨log, grown, done⟩ := h.sent
  refine ⟨h.usable, h.outstanding, h.pending, ⟨log ++ [.line line], ?_, ?_⟩, h.clear⟩
  · simp [record, grown]
  · intro tag command hm
    have hm : .command tag command ∈ log := by simpa using hm
    exact done tag command hm

/-- A command goes out as a whole. -/
theorem send {u : Unit} (h : Between none c₀ c) (hs : send tag command c = (.ok u, c'))
    (plain : ∀ a ∈ command.arguments, a.isLiteral = false) : Between (some tag) c₀ c' := by
  have drained : c'.pending = none := pending_send_plain hs plain
  obtain ⟨hu, -, waits, stream, pending, -, -, rfl⟩ := send_ok hs
  obtain ⟨log, grown, done⟩ := h.sent
  constructor
  · exact h.usable
  · intro t ht
    rcases List.mem_append.mp ht with ht | ht
    · exact .inl ((h.outstanding t ht).resolve_right (by simp))
    · exact .inr (congrArg some (List.mem_singleton.mp ht).symm)
  · exact drained.trans (waits.symm.trans h.pending)
  · refine ⟨log ++ [.command tag command], ?_, ?_⟩
    · simp [record, grown]
    · intro t begun hm
      refine ⟨drained, fun ht => ?_⟩
      rcases List.mem_append.mp ht with ht | ht
      · rcases List.mem_append.mp hm with hm | hm
        · exact absurd ((done t begun hm).2 ht) (by simp)
        · cases List.mem_singleton.mp hm
          rfl
      · exact congrArg some (List.mem_singleton.mp ht).symm
  · exact fun _ => drained

/-- What remains open after a response. -/
theorem hear (h : Between (some tag) c₀ c) (hr : readResponse limit c = (.ok r, c')) :
    Between (if r.tag? = some tag then none else some tag) c₀ c' := by
  have heard := heard_of_readResponse hr
  have waits := h.clear rfl
  have drained := heard.pending_eq waits
  obtain ⟨log, grown, done⟩ := h.sent
  have left : ∀ t ∈ c'.outstanding, t ∈ c.outstanding ∧ r.tag? ≠ some t := by
    intro t ht
    rw [heard.outstanding] at ht
    exact mem_unsettled.mp ht
  have only : ∀ t ∈ c'.outstanding, some tag = some t →
      (if r.tag? = some tag then none else some tag) = some t := by
    rintro t ht same
    cases same
    rw [if_neg (left tag ht).2]
  constructor
  · rw [heard.usable, ← h.usable, (readResponse_ok hr).1]
  · intro t ht
    exact (h.outstanding t (left t ht).1).imp_right (only t ht)
  · rw [drained, ← h.pending, waits]
  · refine ⟨log ++ [.response r], ?_, ?_⟩
    · rw [heard.transcript_eq waits, grown, List.append_assoc]
    · intro t begun hm
      have hm : .command t begun ∈ log := by simpa using hm
      exact ⟨drained, fun ht => only t ht ((done t begun hm).2 (left t ht).1)⟩
  · exact fun _ => drained

theorem hear_own (h : Between (some tag) c₀ c) (hr : readResponse limit c = (.ok r, c'))
    (own : r.tag? = some tag) : Between none c₀ c' := by
  have heard := h.hear hr
  rwa [if_pos own] at heard

theorem hear_other (h : Between (some tag) c₀ c) (hr : readResponse limit c = (.ok r, c'))
    (other : r.tag? ≠ some tag) : Between (some tag) c₀ c' := by
  have heard := h.hear hr
  rwa [if_neg other] at heard

/-- Whole commands leave nothing open, whatever their completion says. -/
theorem complete {u : Unit} {completion : Completion} {c₁ : Connection} (h : Between none c₀ c)
    (hs : Connection.send tag command c = (.ok u, c₁))
    (hr : readUntil tag c₁ = (.ok completion, c')) : Between none c₀ c' := by
  obtain ⟨hu, -, waits, stream, pending, owned, -, rfl⟩ := send_ok hs
  have concluded := concluded_of_collect (readUntil_ok hr).2
  obtain ⟨log, grown, done⟩ := h.sent
  obtain ⟨later, quiet, grown'⟩ := concluded.transcript
  have left : ∀ t ∈ c'.outstanding, t ∈ c.outstanding := by
    intro t ht
    obtain ⟨hm, other⟩ := concluded.outstanding t ht
    rcases List.mem_append.mp hm with hm | hm
    · exact hm
    · exact absurd (List.mem_singleton.mp hm) other
  have drained : c'.pending = none := by
    rw [Option.eq_none_iff_forall_ne_some]
    intro t ht
    obtain ⟨⟨t₁, h₁, same⟩, other⟩ := concluded.pending t ht
    exact other (same.symm.trans (owned t₁ h₁))
  constructor
  · rw [concluded.usable, ← h.usable, hu]
  · exact fun t ht => h.outstanding t (left t ht)
  · rw [drained, ← h.pending, waits]
  · refine ⟨log ++ .command tag command :: later, ?_, ?_⟩
    · rw [grown']
      simp [record, grown]
    · intro t begun hm
      refine ⟨drained, fun ht => ?_⟩
      rcases List.mem_append.mp hm with hm | hm
      · exact (done t begun hm).2 (left t ht)
      · rcases List.mem_cons.mp hm with same | hm
        · cases same
          exact absurd rfl (concluded.outstanding tag ht).2
        · have other := quiet _ hm
          cases other
  · exact fun absurd => by cases absurd

end Between

/-- A command that is executed has been completed, if it succeeds or the server refuses it. -/
theorem between_execute {result : Except Error Completion} (h : Between none c₀ c)
    (he : execute command c = (result, c')) (hr : ∀ e, result = .error e → e.isVerdict = true) :
    Between none c₀ c' := by
  unfold execute at he
  dsimp only at he
  split at he
  next e _ hs =>
    cases he
    have verdict := hr e rfl
    rw [isVerdict_send hs] at verdict
    cases verdict
  next hs =>
    split at he
    next e _ hu =>
      cases he
      have verdict := hr e rfl
      rw [isVerdict_readUntil hu] at verdict
      cases verdict
    next hu =>
      have done := h.nextTag.complete hs hu
      split at he
      · cases he
        exact done
      · cases he
        exact done

theorem between_learnCapabilities {names : List String} (h : Between none c₀ c)
    (hl : learnCapabilities c = (.ok names, c')) : Between none c₀ c' := by
  unfold learnCapabilities at hl
  split at hl
  · rw [capability_eq] at hl
    split at hl
    next he =>
      cases hl
      exact between_execute h he fun e absurd => by cases absurd
    · cases hl
  · cases hl
    exact h

theorem isAuth_learnCapabilities (h : learnCapabilities c = (.error e, c')) : e.isAuth = false := by
  unfold learnCapabilities at h
  split at h
  · rw [capability_eq] at h
    split at h
    · cases h
    next he =>
      cases h
      exact isAuth_execute he
  · cases h

end Connection

/-! ### Exchanges of messages -/

namespace Dialogue

open Connection (Between)

variable {τ : Type} {c₀ c c' : Connection} {d d' : Dialogue τ} {e : Error} {tag : Tag}
  {step : Sasl.ServerStep}

def Closed (c₀ : Connection) (d : Dialogue τ) : Prop := Between none c₀ d.connection ∧ d.tag = none

def Engaged (c₀ : Connection) (d : Dialogue τ) : Prop :=
  ∃ tag, Between (some tag) c₀ d.connection ∧ d.tag = some tag

/-- The tag is given up with the completion that is taken for the end of the exchange. -/
theorem between_answerTo {open? : Option Tag} (h : Between (some tag) c₀ c)
    (ha : answerTo tag c = (.ok (step, open?), c')) : Between open? c₀ c' ∧
      step.Leaves (fun _ => open? = none) (fun _ => open? = some tag) () := by
  fun_induction answerTo tag c with
  | case1 => cases ha
  | case2 c text c₁ hr =>
    cases ha
    exact ⟨h.hear_other hr (by simp [Response.tag?]), rfl⟩
  | case3 c status code text c₁ hr =>
    cases ha
    have heard := h.hear_own hr rfl
    cases status <;> exact ⟨heard, rfl⟩
  | case4 c completed status code text c₁ hr other _ ih =>
    have stranger : some completed ≠ some tag := fun same => other (Option.some.inj same)
    exact ih (h.hear_other hr stranger) ha
  | case5 c u c₁ hr _ ih => exact ih (h.hear_other hr (by simp [Response.tag?])) ha

theorem leaves_readStep (h : Engaged c₀ d) (hr : readStep d = (.ok step, d')) :
    step.Leaves (Closed c₀) (Engaged c₀) d' := by
  obtain ⟨tag, between, ht⟩ := h
  unfold readStep at hr
  rw [ht] at hr
  dsimp only at hr
  split at hr
  · cases hr
  next ha =>
    cases hr
    obtain ⟨after, left⟩ := between_answerTo between ha
    cases step with
    | challenge => exact ⟨tag, left ▸ after, left⟩
    | success | rejected => exact ⟨left ▸ after, left⟩

theorem leaves_respond {data : String} (h : Engaged c₀ d)
    (hr : respond data d = (.ok step, d')) : step.Leaves (Closed c₀) (Engaged c₀) d' := by
  obtain ⟨tag, between, ht⟩ := h
  rw [respond_eq] at hr
  split at hr
  next c hs =>
    have answered : Engaged c₀ { d with connection := c } := ⟨tag, between.line hs, ht⟩
    exact leaves_readStep answered hr
  · cases hr

theorem leaves_start {scheme : Sasl.Scheme} {initial : Option String} (h : Closed c₀ d)
    (hs : start scheme initial d = (.ok step, d')) :
    step.Leaves (Closed c₀) (Engaged c₀) d' := by
  obtain ⟨between, -⟩ := h
  unfold start at hs
  dsimp only at hs
  split at hs
  · cases hs
  next c hsend =>
    have sent := between.nextTag.send hsend (isLiteral_authenticateCommand _ _)
    have begun : Engaged c₀ { d with connection := c, tag := some d.connection.nextTag.1 } :=
      ⟨_, sent, rfl⟩
    split at hs
    next hr =>
      have challenged : Engaged c₀ _ := leaves_readStep begun hr
      split at hs
      · exact leaves_respond challenged hs
      · cases hs
        exact challenged
    next hr => exact leaves_readStep begun hs

theorem closed_cancel (h : Engaged c₀ d) (hc : cancel d = (.ok (), d')) : Closed c₀ d' := by
  obtain ⟨tag, -, ht⟩ := id h
  unfold cancel at hc
  rw [ht] at hc
  dsimp only at hc
  split at hc
  · cases hc
  · cases hc
  next step _ ended hr =>
    cases hc
    have left := leaves_respond h hr
    cases step with
    | challenge data => exact absurd rfl (ended data)
    | success | rejected => exact left

/-! Failures of the connection are not taken for errors of the authentication. -/

theorem isVerdict_answerTo (h : answerTo tag c = (.error e, c')) : e.isVerdict = false := by
  fun_induction answerTo tag c with
  | case1 c e₁ c₁ hr =>
    cases h
    exact Connection.isVerdict_readResponse hr
  | case2 => cases h
  | case3 => cases h
  | case4 c completed status code text c₁ hr other _ ih => exact ih h
  | case5 c u c₁ hr _ ih => exact ih h

theorem isVerdict_readStep (h : readStep d = (.error e, d')) : e.isVerdict = false := by
  unfold readStep at h
  split at h
  · cases h
    rfl
  · split at h
    next ha =>
      cases h
      exact isVerdict_answerTo ha
    · cases h

theorem isVerdict_respond {data : String} (h : respond data d = (.error e, d')) :
    e.isVerdict = false := by
  rw [respond_eq] at h
  split at h
  · exact isVerdict_readStep h
  next hs =>
    cases h
    exact Connection.isVerdict_sendLine hs

theorem isVerdict_start {scheme : Sasl.Scheme} {initial : Option String}
    (h : start scheme initial d = (.error e, d')) : e.isVerdict = false := by
  unfold start at h
  dsimp only at h
  split at h
  next hs =>
    cases h
    exact Connection.isVerdict_send hs
  · split at h
    · split at h
      · exact isVerdict_respond h
      · cases h
    · exact isVerdict_readStep h

theorem isVerdict_cancel (h : cancel d = (.error e, d')) : e.isVerdict = false := by
  unfold cancel at h
  split at h
  · cases h
  · split at h
    next hr =>
      cases h
      exact isVerdict_respond hr
    · cases h
      rfl
    · cases h

theorem closes_transport (c₀ : Connection) (service : Sasl.TokenService τ) :
    (transport : Sasl.Transport (Dialogue τ) Error).Closes (tokenProvider service) (Closed c₀)
      (Engaged c₀) where
  start h hs := leaves_start h hs
  respond h hr := leaves_respond h hr
  cancel h hc := closed_cancel h hc
  get _ _ _ h := ⟨h.1.congr rfl rfl rfl rfl, h.2⟩
  invalidate _ _ h := h
  send_error {message _ _ _} why h := by
    cases message with
    | start scheme initial =>
      exact Error.ne_auth (Error.isAuth_of_not_isVerdict (isVerdict_start h)) why
    | answer data =>
      exact Error.ne_auth (Error.isAuth_of_not_isVerdict (isVerdict_respond h)) why
  cancel_error why h := Error.ne_auth (Error.isAuth_of_not_isVerdict (isVerdict_cancel h)) why

end Dialogue

/-! ### Authentication -/

namespace Connection

variable {τ : Type} {c c' : Connection} {host : String} {strategy : Sasl.Strategy}
  {service : Sasl.TokenService τ} {t : τ}

structure Completed (c c' : Connection) : Prop where
  usable : c'.usable = c.usable
  outstanding : ∀ tag ∈ c'.outstanding, tag ∈ c.outstanding
  pending : c'.pending = c.pending
  sent : ∃ log, c'.transcript = c.transcript ++ log ∧ ∀ before tag command after,
    log = before ++ .command tag command :: after →
      tag ∉ c'.outstanding ∧ c'.pending = none ∧
      ∃ status code text, .response (.tagged tag status code text) ∈ after

/-- A tag is given up only with its completion. -/
theorem Between.completed (h : Between none c c') (led : Leads False c c') : Completed c c' := by
  obtain ⟨incidents, course⟩ := led
  obtain ⟨log, grown, done⟩ := h.sent
  refine ⟨h.usable, fun tag ht => (h.outstanding tag ht).resolve_right (by simp), h.pending,
    log, grown, ?_⟩
  intro before tag command after split
  obtain ⟨drained, settled⟩ := done tag command (by simp [split])
  have gone : tag ∉ c'.outstanding := fun ht => by simpa using settled ht
  refine ⟨gone, drained, ?_⟩
  have recorded : incidents.filterMap Incident.recorded? =
      before ++ .command tag command :: after :=
    (List.append_cancel_left ((transcript_course course).symm.trans grown)).trans split
  obtain ⟨earlier, later, rfl, hbefore, hrest⟩ := List.filterMap_eq_append_iff.mp recorded
  obtain ⟨skipped, begun, rest, rfl, -, hbegun, hafter⟩ := List.filterMap_eq_cons_iff.mp hrest
  obtain ⟨bytes, rfl⟩ : ∃ bytes, begun = .wrote (.command tag command) bytes := by
    cases begun with
    | wrote entry bytes =>
      cases hbegun
      exact ⟨bytes, rfl⟩
    | _ => cases hbegun
  have ended : ∃ i ∈ rest, i.completes tag = true := by
    apply Classical.byContradiction
    intro none
    apply gone
    apply (mem_outstanding_course course).mpr
    refine .inl ⟨earlier ++ skipped, command, bytes, rest, by simp, ?_⟩
    intro i hi
    exact Bool.eq_false_iff.mpr fun completes => none ⟨i, hi, completes⟩
  obtain ⟨i, hi, completes⟩ := ended
  unfold Incident.completes at completes
  split at completes
  next completed status code text =>
    obtain rfl : completed = tag := by simpa using completes
    refine ⟨status, code, text, ?_⟩
    rw [← hafter]
    exact List.mem_filterMap.mpr ⟨.heard (.tagged completed status code text), hi, rfl⟩
  · cases completes

theorem between_loginWith {result : Except Error Sasl.Outcome} {c₀ : Connection}
    (h : Between none c₀ c) (hl : loginWith host strategy c = (result, c'))
    (settled : Sasl.Settled Error.auth result) : Between none c₀ c' := by
  unfold loginWith at hl
  dsimp only at hl
  split at hl
  · cases hl
    exact h
  · unfold login at hl
    split at hl
    next hlogin =>
      cases hl
      split at hlogin
      next he =>
        cases hlogin
        exact between_execute h he fun e absurd => by cases absurd
      · cases hlogin
      · cases hlogin
    next hlogin =>
      cases hl
      split at hlogin
      · cases hlogin
      next he =>
        cases hlogin
        refine between_execute h he ?_
        rintro e ⟨⟩
        rfl
      next he =>
        cases hlogin
        obtain ⟨why, rfl⟩ := settled
        exact absurd rfl (Error.ne_auth (isAuth_execute he) why)

theorem between_runSasl {offered : List Sasl.Challenge} {c₀ : Connection} (h : Between none c₀ c)
    (settled : Sasl.Settled Error.auth (runSasl host strategy service offered (c, t)).1) :
    Between none c₀ (runSasl host strategy service offered (c, t)).2.1 := by
  let authenticator : Sasl.Authenticator (Dialogue τ) :=
    { host := host, strategy := strategy, tokens := Dialogue.tokenProvider service }
  let dialogue : Dialogue τ := ⟨c, none, c.hasCapability "SASL-IR", t⟩
  have closed : Dialogue.Closed c₀ dialogue := ⟨h, rfl⟩
  have closes := Dialogue.closes_transport c₀ service
  exact (Sasl.Transport.Closes.run authenticator closes offered closed settled).1

/-! The ways that an authentication can take. -/

theorem authenticate_preauth (hp : c.preauth = true) :
    authenticate host strategy service (c, t) = (.ok .unauthenticated, c, t) := by
  simp [authenticate, hp]

theorem authenticate_unlearnt {e : Error} (hp : c.preauth = false)
    (hl : learnCapabilities c = (.error e, c')) :
    authenticate host strategy service (c, t) = (.error e, c', t) := by
  simp [authenticate, hp, hl]

theorem authenticate_disabled {names : List String} (hp : c.preauth = false)
    (hl : learnCapabilities c = (.ok names, c')) (ho : Sasl.Challenge.offers c'.authMechanisms = [])
    (hd : c'.hasCapability "LOGINDISABLED" = true) : authenticate host strategy service (c, t) =
      (.error (.auth (.noUsableOption "none (LOGINDISABLED)")), c', t) := by
  simp [authenticate, hp, hl, ho, hd]

theorem authenticate_login {names : List String} (hp : c.preauth = false)
    (hl : learnCapabilities c = (.ok names, c')) (ho : Sasl.Challenge.offers c'.authMechanisms = [])
    (hd : c'.hasCapability "LOGINDISABLED" = false) : authenticate host strategy service (c, t) =
      ((loginWith host strategy c').1, (loginWith host strategy c').2, t) := by
  simp [authenticate, hp, hl, ho, hd]

theorem authenticate_sasl {names : List String} (hp : c.preauth = false)
    (hl : learnCapabilities c = (.ok names, c'))
    (ho : Sasl.Challenge.offers c'.authMechanisms ≠ []) :
    authenticate host strategy service (c, t) =
      runSasl host strategy service (Sasl.Challenge.offers c'.authMechanisms) (c', t) := by
  cases offered : Sasl.Challenge.offers c'.authMechanisms with
  | nil => exact absurd offered ho
  | cons => simp [authenticate, hp, hl, offered]

/-- An authentication that succeeds or fails as such leaves none of its commands open. -/
theorem completed_authenticate (host : String) (strategy : Sasl.Strategy)
    (service : Sasl.TokenService τ) (c : Connection) (t : τ)
    (settled : Sasl.Settled Error.auth (authenticate host strategy service (c, t)).1) :
    Completed c (authenticate host strategy service (c, t)).2.1 := by
  refine Between.completed ?_ (leads_authenticate host strategy service c t)
  cases hp : c.preauth with
  | true =>
    rw [authenticate_preauth hp]
    exact .refl c
  | false =>
    rcases hl : learnCapabilities c with ⟨e | names, c₁⟩
    · rw [authenticate_unlearnt hp hl] at settled
      obtain ⟨why, rfl⟩ := settled
      exact absurd rfl (Error.ne_auth (isAuth_learnCapabilities hl) why)
    · have learnt := between_learnCapabilities (.refl c) hl
      by_cases ho : Sasl.Challenge.offers c₁.authMechanisms = []
      · cases hd : c₁.hasCapability "LOGINDISABLED" with
        | true =>
          rw [authenticate_disabled hp hl ho hd]
          exact learnt
        | false =>
          rw [authenticate_login hp hl ho hd] at settled ⊢
          exact between_loginWith learnt rfl settled
      · rw [authenticate_sasl hp hl ho] at settled ⊢
        exact between_runSasl learnt settled

/-- A server that names no mechanism refuses a password, for which it has asked as a literal. -/
theorem completed_after_refusal :
    let stream := Wire.Stream.start [.data (Bytes.ofText ("* OK hi\r\n* CAPABILITY IMAP4rev1\r\n" ++
      "A0000 OK done\r\n+ go\r\n* 1 EXISTS\r\nA0001 NO wrong\r\n"))] .unlimited
    let c := (start stream { host := "mail" }).2
    let strategy := Sasl.Strategy.inOrder [⟨.plain, .password "user" "pässword"⟩]
    let after := authenticate "mail" strategy (.empty Unit) (c, ())
    after.1 = .error (.auth (.rejected "wrong")) ∧ after.2.1.transcript.length = 9 ∧
      Completed c after.2.1 := by
  intro stream c strategy after
  have reply : (match after.1 with | .error e => some e | .ok _ => none) =
      some (.auth (.rejected "wrong")) := by decide +kernel
  have result : after.1 = .error (.auth (.rejected "wrong")) := by
    cases h : after.1 with
    | ok => simp [h] at reply
    | error e => simpa [h] using reply
  refine ⟨result, by decide +kernel, completed_authenticate _ _ _ _ _ ?_⟩
  rw [show (authenticate "mail" strategy (.empty Unit) (c, ())).1 = _ from result]
  exact ⟨_, rfl⟩

end Connection
end MailClient.Imap
