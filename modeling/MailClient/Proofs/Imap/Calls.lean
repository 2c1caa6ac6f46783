import MailClient.Imap.Idle
import MailClient.Imap.Login
import MailClient.Proofs.Imap.Steps
import MailClient.Proofs.Sasl.Surroundings

/-! What the operations make of a connection. All of them are made of the same few calls, each of
which takes a tag, writes once, or reads once. So where an operation leads to is known from where
each call leads to. -/
namespace MailClient.Imap

namespace Connection

structure ReadsWithin (rel : Connection → Connection → Prop) : Prop where
  refl (c) : rel c c
  trans {c c₁ c'} : rel c c₁ → rel c₁ c' → rel c c'
  pause (c) (span) : rel c { c with stream := c.stream.wait span }
  read (limit c) : rel c (readResponse limit c).2
  misfit (c) : rel c c.poison

structure CommandsWithin (rel : Connection → Connection → Prop) : Prop extends
    ReadsWithin rel where
  tag (c) : rel c c.nextTag.2
  greeted (c) : rel c { c with preauth := true }
  command (tag command c) : rel c (send tag command c).2
  close (c) : rel c c.close

/-- All calls stay within `rel`. Encryption is left out, as what comes after it is up to those who
ask for it. -/
structure Within (rel : Connection → Connection → Prop) : Prop extends CommandsWithin rel where
  line (text c) : rel c (sendLine text c).2

variable {rel : Connection → Connection → Prop} {c c' : Connection} {limit : Duration}

/-- The form in which a call serves where its result has been looked at. -/
theorem rel_of_eq {α : Type} {p : α × Connection} {result : α} (h : rel c p.2)
    (hp : p = (result, c')) : rel c c' := by
  rwa [hp] at h

/-! ### Reading -/

namespace ReadsWithin

variable (h : ReadsWithin rel)
include h

theorem reads {result : Except Error Response} (hr : readResponse limit c = (result, c')) :
    rel c c' := rel_of_eq (h.read limit c) hr

theorem collect (tag : Tag) (before : List Response) (c : Connection) :
    rel c (collect tag before c).2 := by
  fun_induction Connection.collect tag before c with
  | case1 _ _ _ _ hr => exact h.reads hr
  | case2 _ _ _ c₁ hr => exact h.trans (h.reads hr) (h.misfit c₁)
  | case3 _ _ _ _ _ _ hr => exact h.reads hr
  | case4 _ _ _ _ _ _ _ hr _ _ ih => exact h.trans (h.reads hr) ih
  | case5 _ _ _ _ hr _ ih => exact h.trans (h.reads hr) ih

theorem readUntil (tag : Tag) (c : Connection) : rel c (readUntil tag c).2 := by
  unfold Connection.readUntil
  split
  · exact h.collect tag [] c
  · exact h.refl c

theorem enter (tag : Tag) (early : List Untagged) (c : Connection) :
    rel c (Idling.enter tag early c).2 := by
  fun_induction Idling.enter tag early c with
  | case6 _ _ _ _ hr _ ih => exact h.trans (h.reads hr) ih
  | _ => exact h.reads ‹_›

theorem wait (limit : Duration) (i : Idling) :
    rel i.connection (Idling.wait limit i).2.connection := by
  unfold Idling.wait
  split
  · exact h.refl _
  · split
    · exact h.refl _
    · have heard := h.read limit i.connection
      have misfit := h.trans heard (h.misfit _)
      dsimp only
      split
      · split <;> exact heard
      · exact heard
      · split <;> exact heard
      · split
        · exact heard
        · exact heard
        · exact heard
        · exact misfit
        · exact misfit
      · exact misfit

theorem answerTo (tag : Tag) (c : Connection) : rel c (Dialogue.answerTo tag c).2 := by
  fun_induction Dialogue.answerTo tag c with
  | case4 _ _ _ _ _ _ hr _ _ ih => exact h.trans (h.reads hr) ih
  | case5 _ _ _ hr _ ih => exact h.trans (h.reads hr) ih
  | _ => exact h.reads ‹_›

theorem readStep {τ : Type} (d : Dialogue τ) :
    rel d.connection (Dialogue.readStep d).2.connection := by
  unfold Dialogue.readStep
  split
  · exact h.refl _
  · split
    next ha => exact rel_of_eq (h.answerTo _ _) ha
    next ha => exact rel_of_eq (h.answerTo _ _) ha

end ReadsWithin

/-! ### Commands -/

theorem snd_noop (c : Connection) : (noop c).2 = (execute (.named "NOOP") c).2 := by
  change (Action.bind (execute (.named "NOOP")) _ c).2 = _
  unfold Action.bind
  rcases execute (.named "NOOP") c with ⟨_ | _, c'⟩ <;> rfl

namespace CommandsWithin

variable (h : CommandsWithin rel)
include h

/-- A command goes out under a tag of its own. -/
theorem sends (command : Command) (c : Connection) :
    rel c (send c.nextTag.1 command c.nextTag.2).2 := h.trans (h.tag c) (h.command _ _ _)

theorem execute (command : Command) (c : Connection) : rel c (execute command c).2 := by
  unfold Connection.execute
  dsimp only
  split
  next hs => exact rel_of_eq (h.sends command c) hs
  next c₁ hs =>
    have completed : rel c (Connection.readUntil c.nextTag.1 c₁).2 :=
      h.trans (rel_of_eq (h.sends command c) hs) (h.readUntil _ c₁)
    split
    next hr => exact rel_of_eq completed hr
    next hr => split <;> exact rel_of_eq completed hr

theorem capability (c : Connection) : rel c (capability c).2 := by
  rw [capability_eq]
  split
  next he => exact rel_of_eq (h.execute _ c) he
  next he => exact rel_of_eq (h.execute _ c) he

theorem learnCapabilities (c : Connection) : rel c (learnCapabilities c).2 := by
  unfold Connection.learnCapabilities
  split
  · exact h.capability c
  · exact h.refl c

theorem noop (c : Connection) : rel c (noop c).2 := by
  rw [snd_noop]
  exact h.execute _ c

theorem logout (c : Connection) : rel c (logout c).2 := by
  unfold Connection.logout
  split
  next he => exact h.trans (rel_of_eq (h.execute _ c) he) (h.close _)
  next he => exact h.trans (rel_of_eq (h.execute _ c) he) (h.close _)

theorem login (user password : String) (c : Connection) : rel c (login user password c).2 := by
  unfold Connection.login
  split
  next he => exact rel_of_eq (h.execute _ c) he
  next he => exact rel_of_eq (h.execute _ c) he
  next he => exact rel_of_eq (h.execute _ c) he

theorem loginWith (host : String) (strategy : Sasl.Strategy) (c : Connection) :
    rel c (loginWith host strategy c).2 := by
  unfold Connection.loginWith
  dsimp only
  split
  · exact h.refl c
  · split
    next hl => exact rel_of_eq (h.login _ _ c) hl
    next hl => exact rel_of_eq (h.login _ _ c) hl

theorem start {stream : Wire.Stream} {settings : Settings} {u : Unit}
    (hs : start stream settings = (.ok u, c)) : rel (fresh stream settings) c := by
  unfold Connection.start greet at hs
  split at hs
  · cases hs
  next hr =>
    split at hs
    · cases hs
      exact h.reads hr
    · cases hs
      exact h.trans (h.reads hr) (h.greeted _)
    · cases hs
    · cases hs
  · cases hs

theorem idling (c : Connection) : rel c (Idling.start c).2 := by
  unfold Idling.start
  dsimp only
  split
  next hs => exact rel_of_eq (h.sends _ c) hs
  next hs => exact h.trans (rel_of_eq (h.sends _ c) hs) (h.enter _ [] _)

/-- An authentication asks for the capabilities, and then logs in or runs a SASL exchange. -/
theorem authenticate {τ : Type} {strategy : Sasl.Strategy} {service : Sasl.TokenService τ}
    {host : String} {t : τ}
    (run : ∀ offered c, rel c (runSasl host strategy service offered (c, t)).2.1)
    (c : Connection) : rel c (authenticate host strategy service (c, t)).2.1 := by
  unfold Connection.authenticate
  dsimp only
  split
  · exact h.refl c
  · split
    next hl => exact rel_of_eq (h.learnCapabilities c) hl
    next c₁ hl =>
      have learnt : rel c c₁ := rel_of_eq (h.learnCapabilities c) hl
      split
      · split
        · exact learnt
        · exact h.trans learnt (h.loginWith host strategy c₁)
      · exact h.trans learnt (run _ c₁)

end CommandsWithin

end Connection

/-! ### Lines within an exchange -/

theorem Dialogue.respond_eq {τ : Type} (data : String) (d : Dialogue τ) : respond data d =
    match Connection.sendLine data d.connection with
    | (.ok _, c) => readStep { d with connection := c }
    | (.error e, c) => (.error e, { d with connection := c }) := by
  change Action.bind (lift (Connection.sendLine data)) (fun _ => readStep) d = _
  unfold Action.bind lift
  dsimp only
  rcases Connection.sendLine data d.connection with ⟨_ | _, c⟩ <;> rfl

namespace Connection

namespace Within

variable {rel : Connection → Connection → Prop} {τ : Type} (h : Within rel)
include h

theorem done (i : Idling) : rel i.connection i.done.2 := by
  unfold Idling.done
  dsimp only
  split
  · exact h.refl _
  · have sent := h.line "DONE" i.connection
    split
    next hs => exact rel_of_eq sent hs
    next hs =>
      have completed : rel i.connection (Connection.readUntil i.tag _).2 :=
        h.trans (rel_of_eq sent hs) (h.readUntil _ _)
      split
      next hr => exact rel_of_eq completed hr
      next hr => split <;> exact rel_of_eq completed hr

theorem respond (data : String) (d : Dialogue τ) :
    rel d.connection (Dialogue.respond data d).2.connection := by
  rw [Dialogue.respond_eq]
  have sent := h.line data d.connection
  split
  next c hs => exact h.trans (rel_of_eq sent hs) (h.readStep { d with connection := c })
  next hs => exact rel_of_eq sent hs

theorem opens (scheme : Sasl.Scheme) (initial : Option String) (d : Dialogue τ) :
    rel d.connection (Dialogue.start scheme initial d).2.connection := by
  unfold Dialogue.start
  dsimp only
  split
  next hs => exact rel_of_eq (h.sends _ d.connection) hs
  next c hs =>
    have heard : rel d.connection _ := h.trans (rel_of_eq (h.sends _ d.connection) hs)
      (h.readStep { d with connection := c, tag := some d.connection.nextTag.1 })
    split
    next hr =>
      rw [hr] at heard
      split
      · exact h.trans heard (h.respond _ _)
      · exact heard
    · exact heard

theorem cancel (d : Dialogue τ) : rel d.connection (Dialogue.cancel d).2.connection := by
  unfold Dialogue.cancel
  split
  · exact h.refl _
  · have answered := h.respond "*" d
    split
    next hr =>
      rw [hr] at answered
      exact answered
    next hr =>
      rw [hr] at answered
      exact h.trans answered (h.misfit _)
    next hr =>
      rw [hr] at answered
      exact answered

theorem transport (service : Sasl.TokenService τ) :
    Sasl.Transport.Within (Dialogue.transport : Sasl.Transport (Dialogue τ) Error)
      (Dialogue.tokenProvider service) (fun d d' => rel d.connection d'.connection)
      fun _ => True where
  refl _ := h.refl _
  trans first second := h.trans first second
  start scheme initial d := h.opens scheme initial d
  begins _ := trivial
  respond data _ _ := h.respond data _
  goesOn _ _ := trivial
  cancel _ := h.cancel _
  get _ _ d := h.pause d.connection _
  begun_get _ _ _ _ := trivial
  invalidate _ _ := h.refl _

theorem runSasl (host : String) (strategy : Sasl.Strategy) (service : Sasl.TokenService τ)
    (t : τ) (offered : List Sasl.Challenge) (c : Connection) :
    rel c (runSasl host strategy service offered (c, t)).2.1 := by
  let authenticator : Sasl.Authenticator (Dialogue τ) :=
    { host := host, strategy := strategy, tokens := Dialogue.tokenProvider service }
  exact @Sasl.Authenticator.within_run _ _ _ _ _ authenticator offered (h.transport service)
    ⟨c, none, c.hasCapability "SASL-IR", t⟩

end Within

end Connection
end MailClient.Imap
