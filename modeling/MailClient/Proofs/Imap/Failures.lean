import MailClient.Imap.Login
import MailClient.Proofs.Imap.Idling
import MailClient.Proofs.Sasl.Failures

/-! What a failure leaves behind. An error that counts as fatal should find the connection unusable
afterwards. That holds of all of them but four, which are reported while the connection goes on. -/
namespace MailClient.Imap

namespace Error

/-- Fatal errors that do not reach the connection: a farewell during IDLE, an IDLE command that
never began, a completion with a status that completes nothing, and a tag that is taken. -/
def isSpared : Error → Bool
  | .bye _ | .violation .idleNotEntered => true
  | .violation (.completion ..) | .violation (.tagInUse _) => true
  | _ => false

/-- A fatal error makes the connection unusable exactly if it is not spared. -/
def Marks (e : Error) (c : Connection) : Prop := e.isFatal = true → c.usable = e.isSpared

variable {e : Error} {c : Connection}

theorem Marks.of_mild (h : e.isFatal = false) : e.Marks c := by
  intro hf
  rw [h] at hf
  cases hf

theorem Marks.of_unusable (hu : c.usable = false) (hs : e.isSpared = false) : e.Marks c :=
  fun _ => hu.trans hs.symm

theorem Marks.of_usable (hu : c.usable = true) (hs : e.isSpared = true) : e.Marks c :=
  fun _ => hu.trans hs.symm

end Error

open Error (Marks)

namespace Connection

variable {c c' : Connection} {e : Error} {limit : Duration} {tag : Tag} {command : Command}

/-! ### Writing and reading -/

theorem marks_write {bytes : Bytes} {entry : Entry} (h : write bytes entry c = (.error e, c')) :
    e.Marks c' := by
  obtain ⟨stream, rfl, ⟨f, rfl⟩ | rfl⟩ := write_error h
  · exact .of_unusable rfl rfl
  · exact .of_mild rfl

theorem marks_sendLine {line : String} (h : sendLine line c = (.error e, c')) : e.Marks c' := by
  unfold sendLine at h
  split at h
  · cases h
    exact .of_mild rfl
  · exact marks_write h

theorem marks_send (h : send tag command c = (.error e, c')) : e.Marks c' := by
  unfold send at h
  split at h
  · cases h
    exact .of_mild rfl
  next hu =>
    split at h
    · cases h
      exact .of_usable (by simpa using hu) rfl
    · split at h
      · cases h
        exact .of_mild rfl
      · dsimp only at h
        split at h
        next hw =>
          cases h
          exact marks_write hw
        · cases h

theorem marks_receive (h : receive limit c = (.error e, c')) : e.Marks c' := by
  unfold receive at h
  dsimp only at h
  split at h <;> cases h
  · exact .of_unusable rfl rfl
  · exact .of_unusable rfl rfl
  · exact .of_unusable rfl rfl
  · exact .of_mild rfl

theorem marks_nextResponse (h : nextResponse limit c = (.error e, c')) : e.Marks c' := by
  fun_induction nextResponse limit c with
  | case1 c e₁ c₁ hr =>
    cases h
    exact marks_receive hr
  | case2 c c₁ text t hr hp e₁ c₂ hs =>
    cases h
    exact marks_write hs
  | case3 c c₁ text t hr hp c₂ hs _ _ ih => exact ih h
  | case4 =>
    obtain ⟨rfl, tag, rfl⟩ := settle_error h
    exact .of_unusable rfl rfl

theorem marks_readResponse (h : readResponse limit c = (.error e, c')) : e.Marks c' := by
  unfold readResponse at h
  split at h
  · cases h
    exact .of_mild rfl
  · exact marks_nextResponse h

/-! ### Whole commands -/

theorem marks_collect {before : List Response} (h : collect tag before c = (.error e, c')) :
    e.Marks c' := by
  fun_induction collect tag before c with
  | case1 before c e₁ c₁ hr =>
    cases h
    exact marks_readResponse hr
  | case2 =>
    cases h
    exact .of_unusable rfl rfl
  | case3 => cases h
  | case4 before c completed status code text c₁ hr _ _ ih => exact ih h
  | case5 before c u c₁ hr _ ih => exact ih h

theorem marks_readUntil (h : readUntil tag c = (.error e, c')) : e.Marks c' := by
  unfold readUntil at h
  split at h
  · exact marks_collect h
  · cases h
    exact .of_mild rfl

/-- A completion is read off a usable connection, whatever it says. -/
theorem marks_completion {completion : Completion} (h : readUntil tag c = (.ok completion, c'))
    (he : completion.error? = some e) : e.Marks c' := by
  have hu := (concluded_of_collect (readUntil_ok h).2).usable
  unfold Completion.error? at he
  split at he <;> cases he
  · exact .of_mild rfl
  · exact .of_mild rfl
  · exact .of_usable hu rfl
  · exact .of_usable hu rfl

theorem marks_execute (h : execute command c = (.error e, c')) : e.Marks c' := by
  unfold execute at h
  dsimp only at h
  split at h
  next hs =>
    cases h
    exact marks_send hs
  · split at h
    next hr =>
      cases h
      exact marks_readUntil hr
    next hr =>
      split at h
      next he =>
        cases h
        exact marks_completion hr he
      · cases h

theorem marks_learnCapabilities (h : learnCapabilities c = (.error e, c')) : e.Marks c' := by
  unfold learnCapabilities at h
  split at h
  · rw [capability_eq] at h
    split at h
    · cases h
    next he =>
      cases h
      exact marks_execute he
  · cases h

theorem marks_login {user password : String} (h : login user password c = (.error e, c')) :
    e.Marks c' := by
  unfold login at h
  split at h
  · cases h
  · cases h
    exact .of_mild rfl
  next he =>
    cases h
    exact marks_execute he

end Connection

/-! ### IDLE -/

namespace Idling

variable {c c' : Connection} {i i' : Idling} {e : Error} {limit : Duration} {tag : Tag}

theorem marks_enter {early : List Untagged} (h : enter tag early c = (.error e, c')) :
    e.Marks c' := by
  fun_induction enter tag early c with
  | case1 early c e₁ c₁ hr =>
    cases h
    exact Connection.marks_readResponse hr
  | case2 => cases h
  | case3 =>
    cases h
    exact .of_mild rfl
  | case4 =>
    cases h
    exact .of_mild rfl
  | case5 early c completed status code text c₁ hr =>
    cases h
    exact .of_usable (Connection.heard_of_readResponse hr).usable rfl
  | case6 early c u c₁ hr _ ih => exact ih h

theorem marks_start (h : start c = (.error e, c')) : e.Marks c' := by
  unfold start at h
  dsimp only at h
  split at h
  next hs =>
    cases h
    exact Connection.marks_send hs
  · exact marks_enter h

theorem marks_wait (h : wait limit i = (.error e, i')) : e.Marks i'.connection := by
  unfold wait at h
  split at h
  · cases h
  · split at h
    · cases h
    · generalize hr : Connection.readResponse limit i.connection = p at h
      obtain ⟨r, c⟩ := p
      dsimp only at h
      split at h
      · split at h <;> cases h
        exact .of_mild rfl
      · cases h
        exact Connection.marks_readResponse hr
      · split at h <;> cases h
        exact .of_usable (Connection.heard_of_readResponse hr).usable rfl
      · split at h <;> cases h
        · exact .of_mild rfl
        · exact .of_mild rfl
        · exact .of_unusable rfl rfl
        · exact .of_unusable rfl rfl
      · cases h
        exact .of_unusable rfl rfl

theorem marks_done (h : i.done = (.error e, c')) : e.Marks c' := by
  unfold done at h
  dsimp only at h
  split at h
  · cases h
  · split at h
    next hs =>
      cases h
      exact Connection.marks_sendLine hs
    · split at h
      next hr =>
        cases h
        exact Connection.marks_readUntil hr
      next hr =>
        split at h
        next he =>
          cases h
          exact Connection.marks_completion hr he
        · cases h

end Idling

/-! ### Authentication -/

namespace Dialogue

variable {τ : Type} {c c' : Connection} {d d' : Dialogue τ} {e : Error} {tag : Tag}

theorem marks_answerTo (h : answerTo tag c = (.error e, c')) : e.Marks c' := by
  fun_induction answerTo tag c with
  | case1 c e₁ c₁ hr =>
    cases h
    exact Connection.marks_readResponse hr
  | case2 => cases h
  | case3 => cases h
  | case4 c completed status code text c₁ hr _ _ ih => exact ih h
  | case5 c u c₁ hr _ ih => exact ih h

theorem marks_readStep (h : readStep d = (.error e, d')) : e.Marks d'.connection := by
  unfold readStep at h
  split at h
  · cases h
    exact .of_mild rfl
  · split at h
    next ha =>
      cases h
      exact marks_answerTo ha
    · cases h

theorem marks_respond {data : String} (h : respond data d = (.error e, d')) :
    e.Marks d'.connection := by
  change Action.bind (lift (Connection.sendLine data)) (fun _ => readStep) d = _ at h
  unfold Action.bind lift at h
  dsimp only at h
  generalize hs : Connection.sendLine data d.connection = p at h
  obtain ⟨r, c⟩ := p
  cases r with
  | error e₁ =>
    cases h
    exact Connection.marks_sendLine hs
  | ok u => exact marks_readStep h

theorem marks_start {scheme : Sasl.Scheme} {initial : Option String}
    (h : start scheme initial d = (.error e, d')) : e.Marks d'.connection := by
  unfold start at h
  dsimp only at h
  split at h
  next hs =>
    cases h
    exact Connection.marks_send hs
  · split at h
    · split at h
      · exact marks_respond h
      · cases h
    · exact marks_readStep h

theorem marks_cancel (h : cancel d = (.error e, d')) : e.Marks d'.connection := by
  unfold cancel at h
  split at h
  · cases h
  · split at h
    next hr =>
      cases h
      exact marks_respond hr
    · cases h
      exact .of_unusable rfl rfl
    · cases h

theorem transport_leaves : Sasl.Transport.Leaves (transport : Sasl.Transport (Dialogue τ) Error)
    fun e d => e.Marks d.connection where
  start := marks_start
  respond := marks_respond
  cancel := marks_cancel
  auth _ _ := .of_mild rfl

end Dialogue

namespace Connection

variable {τ : Type} {c c' : Connection} {t t' : τ} {e : Error} {host : String}
  {strategy : Sasl.Strategy} {service : Sasl.TokenService τ}

theorem marks_loginWith (h : loginWith host strategy c = (.error e, c')) : e.Marks c' := by
  unfold loginWith at h
  dsimp only at h
  split at h
  · cases h
    exact .of_mild rfl
  · split at h
    · cases h
    next hl =>
      cases h
      exact marks_login hl

theorem marks_runSasl {offered : List Sasl.Challenge}
    (h : runSasl host strategy service offered (c, t) = (.error e, c', t')) : e.Marks c' := by
  unfold runSasl at h
  dsimp only at h
  generalize hr : Sasl.Authenticator.run _ _ _ _ = p at h
  obtain ⟨r, n, d⟩ := p
  have marks : r = .error e → e.Marks d.connection := by
    rintro rfl
    have left := Sasl.Authenticator.leaves_run Dialogue.transport_leaves hr
    exact left
  cases h
  exact marks rfl

theorem marks_authenticate (h : authenticate host strategy service (c, t) = (.error e, c', t')) :
    e.Marks c' := by
  unfold authenticate at h
  dsimp only at h
  split at h
  · cases h
  · split at h
    next hl =>
      cases h
      exact marks_learnCapabilities hl
    · split at h
      · split at h
        · cases h
          exact .of_mild rfl
        · generalize hl : loginWith host strategy _ = p at h
          obtain ⟨r, c₁⟩ := p
          cases h
          exact marks_loginWith hl
      · exact marks_runSasl h

end Connection

/-! ### All operations -/

inductive Failure (c : Connection) : Error → Connection → Prop where
  | send {tag command e c'} : c.send tag command = (.error e, c') → Failure c e c'
  | sendLine {line e c'} : c.sendLine line = (.error e, c') → Failure c e c'
  | readResponse {limit e c'} : c.readResponse limit = (.error e, c') → Failure c e c'
  | readUntil {tag e c'} : c.readUntil tag = (.error e, c') → Failure c e c'
  | execute {command e c'} : c.execute command = (.error e, c') → Failure c e c'
  | select {mailbox e c'} : c.select mailbox = (.error e, c') → Failure c e c'
  | examine {mailbox e c'} : c.examine mailbox = (.error e, c') → Failure c e c'
  | login {user password e c'} : c.login user password = (.error e, c') → Failure c e c'
  | authenticate {τ : Type} {host strategy e c'} {service : Sasl.TokenService τ} {t t' : τ} :
      Connection.authenticate host strategy service (c, t) = (.error e, c', t') → Failure c e c'
  | idle {e c'} : Idling.start c = (.error e, c') → Failure c e c'
  | wait {tag early ended limit e i'} :
      Idling.wait limit ⟨c, tag, early, ended⟩ = (.error e, i') → Failure c e i'.connection
  | done {tag early ended e c'} :
      Idling.done ⟨c, tag, early, ended⟩ = (.error e, c') → Failure c e c'

theorem usable_of_failure {c c' : Connection} {e : Error} (h : Failure c e c')
    (hf : e.isFatal = true) : c'.usable = e.isSpared := by
  have marks : e.Marks c' := by
    cases h with
    | send h => exact Connection.marks_send h
    | sendLine h => exact Connection.marks_sendLine h
    | readResponse h => exact Connection.marks_readResponse h
    | readUntil h => exact Connection.marks_readUntil h
    | execute h => exact Connection.marks_execute h
    | select h => exact Connection.marks_execute h
    | examine h => exact Connection.marks_execute h
    | login h => exact Connection.marks_login h
    | authenticate h => exact Connection.marks_authenticate h
    | idle h => exact Idling.marks_start h
    | wait h => exact Idling.marks_wait h
    | done h => exact Idling.marks_done h
  exact marks hf

/-- A server may say farewell to a client that idles, and the client takes the connection to be in
order. -/
theorem usable_of_farewell :
    let stream := Wire.Stream.start
      [.data (Bytes.ofText "* OK ready\r\n+ idling\r\n* BYE idle too long\r\n")] .unlimited
    let c := (Connection.start stream { host := "mail" }).2
    ∃ i i', (Idling.start c).1.toOption = some i ∧
      i.wait 1 = (.error (.bye "idle too long"), i') ∧
      (Error.bye "idle too long").isFatal = true ∧ i'.connection.usable = true := by
  intro stream c
  have said : ((Idling.start c).1.toOption.map fun i => match (i.wait 1).1 with
      | .error e => some e
      | .ok _ => none) = some (some (Error.bye "idle too long")) := by decide +kernel
  obtain ⟨i, hi, he⟩ := Option.map_eq_some_iff.mp said
  rcases hw : i.wait 1 with ⟨e | event, i'⟩
  · rw [hw] at he
    cases he
    exact ⟨i, i', hi, hw, rfl, usable_of_failure (.wait hw) rfl⟩
  · rw [hw] at he
    cases he

end MailClient.Imap
