import MailClient.Imap.Opening
import MailClient.Proofs.Imap.Calls
import MailClient.Proofs.Imap.Encoding
import MailClient.Proofs.Imap.Idling
import MailClient.Proofs.Imap.Incidents

/-! The operations on a connection, and runs of them in any order. Whatever an operation is asked
for and however it ends, it leads along a course of steps. -/
namespace MailClient.Wire.Opening

def isHandshake {α ε : Type} : Opening α ε → Bool
  | .handshake .. => true
  | _ => false

end MailClient.Wire.Opening

namespace MailClient.Imap

namespace Connection

variable {free : Prop} {c c' c₁ : Connection} {r : Response} {e : Error} {limit : Duration}
  {tag : Tag} {command : Command} {incidents : List Incident}

def Leads (free : Prop) (c c' : Connection) : Prop := ∃ incidents, Course free c incidents c'

theorem Leads.refl (c : Connection) : Leads free c c := ⟨[], .refl c⟩

theorem Leads.trans (h : Leads free c c₁) (h' : Leads free c₁ c') : Leads free c c' := by
  obtain ⟨before, h⟩ := h
  obtain ⟨after, h'⟩ := h'
  exact ⟨before ++ after, h.trans h'⟩

/-- The form in which a lemma on an operation serves where its result has been looked at. -/
theorem Leads.to {α : Type} {p : α × Connection} {result : α} (h : Leads free c p.2)
    (hp : p = (result, c')) : Leads free c c' := by
  rwa [hp] at h

theorem Step.leads (h : Step free c incidents c') : Leads free c c' := ⟨incidents, .single h⟩

/-- A course on which no commands are written, or begun, but those that are `allowed`. -/
def Sends (free : Prop) (allowed : Command → Prop) (c c' : Connection) : Prop :=
  ∃ incidents, Course free c incidents c' ∧ ∀ i ∈ incidents, ∀ tag command,
    i.written? = some (.command tag command) → allowed command

namespace Sends

variable {allowed : Command → Prop}

theorem leads (h : Sends free allowed c c') : Leads free c c' := by
  obtain ⟨incidents, course, -⟩ := h
  exact ⟨incidents, course⟩

theorem refl (c : Connection) : Sends free allowed c c := ⟨[], .refl c, by simp⟩

theorem trans (h : Sends free allowed c c₁) (h' : Sends free allowed c₁ c') :
    Sends free allowed c c' := by
  obtain ⟨before, course, only⟩ := h
  obtain ⟨after, course', only'⟩ := h'
  refine ⟨before ++ after, course.trans course', ?_⟩
  intro i hi
  rcases List.mem_append.mp hi with hi | hi
  · exact only i hi
  · exact only' i hi

theorem mono {allowed' : Command → Prop} (h : Sends free allowed c c')
    (le : ∀ command, allowed command → allowed' command) : Sends free allowed' c c' := by
  obtain ⟨incidents, course, only⟩ := h
  exact ⟨incidents, course, fun i hi tag command hw => le command (only i hi tag command hw)⟩

end Sends

theorem Sends.to {allowed : Command → Prop} {α : Type} {p : α × Connection} {result : α}
    (h : Sends free allowed c p.2) (hp : p = (result, c')) : Sends free allowed c c' := by
  rwa [hp] at h

theorem Step.sends {allowed : Command → Prop} (h : Step free c incidents c')
    (only : ∀ i ∈ incidents, ∀ tag command, i.written? = some (.command tag command) →
      allowed command) : Sends free allowed c c' := ⟨incidents, .single h, only⟩

/-! ### Single operations -/

variable {allowed : Command → Prop}

theorem sends_nextTag (c : Connection) : Sends free allowed c c.nextTag.2 :=
  (Step.tag c).sends (by simp)

theorem leads_nextTag (c : Connection) : Leads free c c.nextTag.2 := (Step.tag c).leads

theorem sends_send (tag : Tag) (c : Connection) (ha : allowed command) :
    Sends free allowed c (send tag command c).2 := by
  by_cases hu : c.usable = true
  · by_cases ht : tag ∈ c.outstanding
    · have refused : (send tag command c).2 = c := by simp [send, hu, ht]
      rw [refused]
      exact .refl c
    · cases hp : c.pending with
      | none =>
        refine (Step.command hu ht hp).sends ?_
        intro i hi t written hw
        rw [List.mem_singleton.mp hi, written_writing] at hw
        cases hw
        exact ha
      | some t =>
        have refused : (send tag command c).2 = c := by simp [send, hu, ht, hp]
        rw [refused]
        exact .refl c
  · have refused : (send tag command c).2 = c := by simp [send, hu]
    rw [refused]
    exact .refl c

/-- What waits after a command has gone out is the rest of its chunks. -/
theorem pending_send {u : Unit} (h : send tag command c = (.ok u, c')) :
    c'.pending = Transfer.ofChunks tag (c.encoding tag command).later := by
  obtain ⟨hu, ht, hp, -⟩ := send_ok h
  have cases := @send_cases c tag command hu ht hp
  obtain ⟨stream, -, ⟨-, hs⟩ | ⟨_, _, -, hs⟩⟩ := cases
  · rw [hs] at h
    cases h
    rfl
  · rw [hs] at h
    cases h

theorem pending_send_plain {u : Unit} (h : send tag command c = (.ok u, c'))
    (hc : ∀ a ∈ command.arguments, a.isLiteral = false) : c'.pending = none := by
  rw [pending_send h, encoding, Command.later_encode_plain hc]
  rfl

theorem leads_send (tag : Tag) (command : Command) (c : Connection) :
    Leads free c (send tag command c).2 :=
  (@sends_send free command (fun _ => True) tag c trivial).leads

theorem sends_sendLine (line : String) (h : free ∨ c.pending = none) :
    Sends free allowed c (sendLine line c).2 := by
  by_cases hu : c.usable = true
  · exact (Step.line hu h).sends (by simp [written_writing])
  · have refused : (sendLine line c).2 = c := by simp [sendLine, hu]
    rw [refused]
    exact .refl c

theorem leads_sendLine (line : String) (h : free ∨ c.pending = none) :
    Leads free c (sendLine line c).2 :=
  (@sends_sendLine free c (fun _ => True) line h).leads

structure Clear (free : Prop) (c c' : Connection) : Prop where
  quiet : Sends free (fun _ => False) c c'
  pending : c.pending = none → c'.pending = none

theorem Clear.sends (h : Clear free c c') : Sends free allowed c c' :=
  h.quiet.mono fun _ absurd => absurd.elim

theorem Clear.leads (h : Clear free c c') : Leads free c c' := h.quiet.leads

theorem Clear.refl (c : Connection) : Clear free c c := ⟨.refl c, id⟩

theorem Clear.trans (h : Clear free c c₁) (h' : Clear free c₁ c') : Clear free c c' :=
  ⟨h.quiet.trans h'.quiet, fun hp => h'.pending (h.pending hp)⟩

theorem Clear.to {α : Type} {p : α × Connection} {result : α} (h : Clear free c p.2)
    (hp : p = (result, c')) : Clear free c c' := by
  rwa [hp] at h

theorem clear_receive_error (hu : c.usable = true) (h : receive limit c = (.error e, c')) :
    Clear free c c' := by
  refine ⟨(Step.unheard hu h).sends (by simp [written_hearing]), fun hp => ?_⟩
  rw [← pending_receive limit c, h] at hp
  exact hp

/-- A chunk only goes out where one waits. -/
theorem waits_of_receive {t : Transfer} (h : receive limit c = (.ok r, c₁))
    (hp : c₁.pending = some t) : c.pending = some t := by
  rw [← pending_receive limit c, h]
  exact hp

theorem clear_nextResponse (limit : Duration) (hu : c.usable = true) :
    Clear free c (nextResponse limit c).2 := by
  fun_induction nextResponse limit c with
  | case1 c e c' hr => exact clear_receive_error hu hr
  | case2 c c₁ text t hr hp e c₂ hs =>
    have step : Step free c _ _ := .chunk hu hr hp
    rw [hs] at step
    refine ⟨step.sends (by simp [written_writing]), fun hn => ?_⟩
    rw [waits_of_receive hr hp] at hn
    cases hn
  | case3 c c₁ text t hr hp c₂ hs _ _ ih =>
    have step : Step free c _ _ := .chunk hu hr hp
    rw [hs] at step
    have usable : c₂.usable = true := by
      obtain ⟨stream, rfl⟩ := receive_ok hr
      obtain ⟨stream₂, pending, -, rfl⟩ := sendChunk_ok hs
      exact hu
    refine ⟨(step.sends (by simp [written_writing])).trans (ih usable).quiet, fun hn => ?_⟩
    rw [waits_of_receive hr hp] at hn
    cases hn
  | case4 c c₁ r hr hn _ =>
    have received : c₁.pending = c.pending := by rw [← pending_receive limit c, hr]
    have drained : (Incident.heard r).isRequest = true → c₁.pending = none := by
      intro hreq
      cases r with
      | continuation text =>
        cases hp : c₁.pending with
        | none => rfl
        | some t => exact (hn text t hr rfl hp HEq.rfl).elim
      | _ => cases hreq
    cases hs : settle r c₁ with
    | mk result c₂ =>
      cases result with
      | ok r' =>
        obtain ⟨rfl, -, _, pending, hpending, hc⟩ := settle_ok hs
        refine ⟨(Step.response hu hr drained hs).sends (by simp), fun hn => ?_⟩
        rw [hc]
        refine Option.eq_none_iff_forall_ne_some.mpr fun t ht => ?_
        have waits := (hpending t ht).1
        rw [received, hn] at waits
        cases waits
      | error e =>
        obtain ⟨hc, tag, rfl⟩ := settle_error hs
        refine ⟨(Step.stray hu hr hs).sends (by simp), fun hn => ?_⟩
        rw [hc]
        exact received.trans hn

theorem clear_readResponse (limit : Duration) (c : Connection) :
    Clear free c (readResponse limit c).2 := by
  unfold readResponse
  split
  · exact .refl c
  next hu => exact clear_nextResponse limit (by simpa using hu)

theorem reads_clear : ReadsWithin (Clear free) where
  refl c := .refl c
  trans h h' := h.trans h'
  pause c span := ⟨(Step.pause c span).sends (by simp), id⟩
  read limit c := clear_readResponse limit c
  misfit c := ⟨(Step.misfit c .endlessChallenges).sends (by simp), id⟩

/-! ### Whole commands -/

theorem sends_execute (c : Connection) (ha : allowed command) :
    Sends free allowed c (execute command c).2 := by
  have sent : Sends free allowed c (send c.nextTag.1 command c.nextTag.2).2 :=
    (sends_nextTag c).trans (sends_send _ _ ha)
  unfold execute
  dsimp only
  split
  next hs => exact sent.to hs
  next c₁ hs =>
    have completed : Sends free allowed c (readUntil c.nextTag.1 c₁).2 :=
      (sent.to hs).trans (reads_clear.readUntil _ c₁).sends
    split
    next hr => exact completed.to hr
    next hr =>
      split
      · exact completed.to hr
      · exact completed.to hr

theorem commands_leads : CommandsWithin (Leads free) where
  refl c := .refl c
  trans h h' := h.trans h'
  pause c span := (Step.pause c span).leads
  read limit c := (clear_readResponse limit c).leads
  misfit c := (reads_clear.misfit c).leads
  tag c := leads_nextTag c
  greeted c := (Step.greeted c).leads
  command tag command c := leads_send tag command c
  close c := (Step.close c).leads

theorem usable_of_execute {completion : Completion}
    (h : execute command c = (.ok completion, c')) : c'.usable = true := by
  unfold execute at h
  dsimp only at h
  split at h
  · cases h
  next hs =>
    split at h
    · cases h
    next hr =>
      split at h
      · cases h
      · cases h
        exact (concluded_of_collect (readUntil_ok hr).2).usable

/-- Encryption begins only where the server has agreed to it. -/
theorem execute_of_isHandshake {host : String} (h : (startTls host c).isHandshake = true) :
    ∃ completion c', execute (.named "STARTTLS") c = (.ok completion, c') := by
  unfold startTls at h
  split at h
  · cases h
  next he => exact ⟨_, _, he⟩

theorem sends_capability (c : Connection) (ha : allowed (.named "CAPABILITY")) :
    Sends free allowed c (capability c).2 := by
  rw [capability_eq]
  split
  next he => exact (sends_execute c ha).to he
  next he => exact (sends_execute c ha).to he

theorem sends_learnCapabilities (c : Connection) (ha : allowed (.named "CAPABILITY")) :
    Sends free allowed c (learnCapabilities c).2 := by
  unfold learnCapabilities
  split
  · exact sends_capability c ha
  · exact .refl c

theorem leads_start {stream : Wire.Stream} {settings : Settings} {u : Unit}
    (h : start stream settings = (.ok u, c)) : Leads free (fresh stream settings) c :=
  commands_leads.start h

end Connection

/-! ### IDLE -/

namespace Idling

variable {free : Prop}

theorem connection_enter {tag : Tag} {early : List Untagged} {c c' : Connection} {i : Idling}
    (h : enter tag early c = (.ok i, c')) : i.connection = c' := by
  fun_induction enter tag early c with
  | case6 _ _ _ _ _ _ ih => exact ih h
  | _ =>
    cases h
    try rfl

/-- The command has no literals, so that none waits while it goes on. -/
theorem pending_start {c c' : Connection} {i : Idling} (h : start c = (.ok i, c')) :
    i.connection = c' ∧ c'.pending = none := by
  unfold start at h
  dsimp only at h
  split at h
  · cases h
  next c₁ hs =>
    have sent : c₁.pending = none := Connection.pending_send_plain hs (by simp [Command.named])
    have entered : Connection.Clear True c₁ c' := (Connection.reads_clear.enter _ [] c₁).to h
    exact ⟨connection_enter h, entered.pending sent⟩

theorem leads_done {i : Idling} (hp : i.connection.pending = none) :
    Connection.Leads free i.connection i.done.2 := by
  unfold done
  dsimp only
  split
  · exact .refl _
  · have sent : Connection.Leads free i.connection _ :=
      Connection.leads_sendLine "DONE" (.inr hp)
    split
    next hs => exact sent.to hs
    next hs =>
      have completed : Connection.Leads free i.connection (Connection.readUntil i.tag _).2 :=
        (sent.to hs).trans (Connection.commands_leads.readUntil _ _)
      split
      next hr => exact completed.to hr
      next hr =>
        split
        · exact completed.to hr
        · exact completed.to hr

end Idling

/-! ### Authentication -/

namespace Dialogue

variable {free : Prop} {τ : Type} {d : Dialogue τ}

theorem clear_sendLine {c : Connection} (line : String) (hp : c.pending = none) :
    Connection.Clear free c (Connection.sendLine line c).2 := by
  refine ⟨Connection.sends_sendLine line (.inr hp), fun _ => ?_⟩
  unfold Connection.sendLine
  split
  · exact hp
  · rw [(Connection.write_frame _ _ c).1, hp]

theorem clear_respond (data : String) (hp : d.connection.pending = none) :
    Connection.Clear free d.connection (respond data d).2.connection := by
  rw [respond_eq]
  have sent : Connection.Clear free d.connection _ := clear_sendLine data hp
  split
  next c hs => exact (sent.to hs).trans (Connection.reads_clear.readStep { d with connection := c })
  next hs => exact sent.to hs

theorem isLiteral_authenticateCommand (scheme : Sasl.Scheme) (initial : Option String) :
    ∀ a ∈ (authenticateCommand scheme initial).arguments, a.isLiteral = false := by
  cases initial with
  | none => simp [authenticateCommand, Argument.isLiteral]
  | some data => simp [authenticateCommand, Argument.isLiteral]

def Opens (command : Command) : Prop := command.name = "AUTHENTICATE"

/-- The command has no literals, so that none waits while messages go back and forth. -/
theorem sends_start (scheme : Sasl.Scheme) (initial : Option String) (d : Dialogue τ) :
    Connection.Sends free Opens d.connection (start scheme initial d).2.connection ∧
      ∀ step, (start scheme initial d).1 = .ok step →
        (start scheme initial d).2.connection.pending = none := by
  have sent (initial : Option String) : Connection.Sends free Opens d.connection
      (d.connection.nextTag.2.send d.connection.nextTag.1 (authenticateCommand scheme initial)).2 :=
    (Connection.sends_nextTag d.connection).trans (Connection.sends_send _ _ rfl)
  unfold start
  dsimp only
  split
  next hs => exact ⟨(sent _).to hs, fun step h => by cases h⟩
  next c hs =>
    have plain : c.pending = none :=
      Connection.pending_send_plain hs (isLiteral_authenticateCommand _ _)
    have opened {p : Except Error Sasl.ServerStep × Dialogue τ}
        (h : Connection.Clear free c p.2.connection) :
        Connection.Sends free Opens d.connection p.2.connection ∧
          ∀ step, p.1 = .ok step → p.2.connection.pending = none :=
      ⟨((sent _).to hs).trans h.sends, fun _ _ => h.pending plain⟩
    have heard : Connection.Clear free c _ :=
      Connection.reads_clear.readStep { d with connection := c, tag := some d.connection.nextTag.1 }
    split
    next hr =>
      rw [hr] at heard
      split
      next message _ => exact opened (heard.trans (clear_respond message (heard.pending plain)))
      · exact opened heard
    · exact opened heard

theorem sends_cancel {allowed : Command → Prop} (hp : d.connection.pending = none) :
    Connection.Sends free allowed d.connection (cancel d).2.connection := by
  unfold cancel
  split
  · exact .refl _
  · have answered : Connection.Sends free allowed d.connection _ := (clear_respond "*" hp).sends
    split
    next hr =>
      rw [hr] at answered
      exact answered
    next hr =>
      rw [hr] at answered
      exact answered.trans ((Connection.Step.misfit _ .endlessChallenges).sends (by simp))
    next hr =>
      rw [hr] at answered
      exact answered

/-- No message of an authentication goes out while a literal waits. -/
theorem transport_within (service : Sasl.TokenService τ) :
    Sasl.Transport.Within (transport : Sasl.Transport (Dialogue τ) Error) (tokenProvider service)
      (fun d d' => Connection.Sends free Opens d.connection d'.connection)
      fun d => d.connection.pending = none where
  refl d := .refl _
  trans h h' := h.trans h'
  start scheme initial d := (sends_start scheme initial d).1
  begins {scheme initial d step d'} h := by
    have plain := (@sends_start True _ scheme initial d).2
    rw [show start scheme initial d = (.ok step, d') from h] at plain
    exact plain step rfl
  respond data {_} hp := (clear_respond data hp).sends
  goesOn {data d _ _} hp h := by
    have answered : Connection.Clear True d.connection _ := clear_respond data hp
    rw [show respond data d = _ from h] at answered
    exact answered.pending hp
  cancel hp := sends_cancel hp
  get _ _ d := (Connection.Step.pause d.connection _).sends (by simp)
  begun_get _ _ {_} hp := hp
  invalidate _ d := .refl _

end Dialogue

namespace Connection

variable {free : Prop} {τ : Type}

theorem sends_runSasl (host : String) (strategy : Sasl.Strategy) (service : Sasl.TokenService τ)
    (offered : List Sasl.Challenge) (c : Connection) (t : τ) :
    Sends free Dialogue.Opens c (runSasl host strategy service offered (c, t)).2.1 := by
  let authenticator : Sasl.Authenticator (Dialogue τ) :=
    { host := host, strategy := strategy, tokens := Dialogue.tokenProvider service }
  let dialogue : Dialogue τ := ⟨c, none, c.hasCapability "SASL-IR", t⟩
  have ran := @Sasl.Authenticator.within_run _ _ _ _ _ authenticator offered
    (@Dialogue.transport_within free τ service) dialogue
  exact ran

theorem leads_authenticate (host : String) (strategy : Sasl.Strategy)
    (service : Sasl.TokenService τ) (c : Connection) (t : τ) :
    Leads free c (authenticate host strategy service (c, t)).2.1 :=
  commands_leads.authenticate
    (fun offered c => (sends_runSasl host strategy service offered c t).leads) c

end Connection

/-! ### Runs -/

inductive Idling.Act where
  | wait (limit : Duration)
  | sleep (span : Duration)

def Idling.Act.perform : Idling.Act → Idling → Idling
  | .wait limit, i => (i.wait limit).2
  | .sleep span, i =>
    { i with connection := { i.connection with stream := i.connection.stream.wait span } }

/-- What a caller can ask of a connection. Results are not shown here; the connection is what an
operation leaves behind, whether it fails or not. -/
inductive Operation : Type 1 where
  | nextTag
  | send (tag : Tag) (command : Command)
  | sendLine (line : String)
  | readResponse (limit : Duration)
  | readUntil (tag : Tag)
  | execute (command : Command)
  | capability
  | noop
  | select (mailbox : String)
  | examine (mailbox : String)
  | login (user password : String)
  | authenticate {τ : Type} (host : String) (strategy : Sasl.Strategy)
      (service : Sasl.TokenService τ) (tokens : τ)
  /-- IDLE, which ends with `DONE` if `stop` is set and is given up without it otherwise. -/
  | idle (acts : List Idling.Act) (stop : Bool)
  /-- Encryption, with what there is to read and to write through it. A handshake that fails ends
  the run. -/
  | startTls (host : String) (secured : Wire.Stream)
  | logout
  | close
  | sleep (span : Duration)

namespace Operation

def perform (c : Connection) : Operation → Connection
  | nextTag => c.nextTag.2
  | send tag command => (c.send tag command).2
  | sendLine line => (c.sendLine line).2
  | readResponse limit => (c.readResponse limit).2
  | readUntil tag => (c.readUntil tag).2
  | execute command => (c.execute command).2
  | capability => c.capability.2
  | noop => c.noop.2
  | select mailbox => (c.select mailbox).2
  | examine mailbox => (c.examine mailbox).2
  | login user password => (c.login user password).2
  | authenticate host strategy service tokens =>
    (Connection.authenticate host strategy service (c, tokens)).2.1
  | idle acts stop =>
    match Idling.start c with
    | (.error _, c) => c
    | (.ok i, _) =>
      let i := acts.foldl (fun i act => act.perform i) i
      if stop then i.done.2 else i.connection
  | startTls host secured =>
    let asked := (c.execute (.named "STARTTLS")).2
    if (c.startTls host).isHandshake then asked.secure secured else asked
  | logout => c.logout.2
  | close => c.close
  | sleep span => { c with stream := c.stream.wait span }

def run (ops : List Operation) (c : Connection) : Connection := ops.foldl perform c

def isLine : Operation → Bool
  | sendLine _ => true
  | _ => false

variable {free : Prop} {rel : Connection → Connection → Prop} {c : Connection}

theorem reads_acts (h : Connection.ReadsWithin rel) (acts : List Idling.Act) (i : Idling) :
    rel i.connection (acts.foldl (fun i act => act.perform i) i).connection := by
  induction acts generalizing i with
  | nil => exact h.refl _
  | cons act rest ih =>
    have first : rel i.connection (act.perform i).connection := by
      cases act with
      | wait limit => exact h.wait limit i
      | sleep span => exact h.pause i.connection span
    exact h.trans first (ih _)

/-- What IDLE leads to is known from where it leads when it is ended with `DONE`. -/
theorem commands_idle (h : Connection.CommandsWithin rel) (acts : List Idling.Act) (stop : Bool)
    (c : Connection) (done : ∀ i c', Idling.start c = (.ok i, c') →
      let i := acts.foldl (fun i act => act.perform i) i
      rel i.connection i.done.2) :
    rel c (perform c (.idle acts stop)) := by
  unfold perform
  dsimp only
  split
  next hs => exact Connection.rel_of_eq (h.idling c) hs
  next i c₁ hs =>
    have begun : rel c i.connection := by
      rw [(Idling.pending_start hs).1]
      exact Connection.rel_of_eq (h.idling c) hs
    have waited := h.trans begun (reads_acts h.toReadsWithin acts i)
    split
    · exact h.trans waited (done i c₁ hs)
    · exact waited

theorem leads_idle (acts : List Idling.Act) (stop : Bool) (c : Connection) :
    Connection.Leads free c (perform c (.idle acts stop)) := by
  refine commands_idle Connection.commands_leads acts stop c fun i c₁ hs => ?_
  obtain ⟨rfl, plain⟩ := Idling.pending_start hs
  have waited : Connection.Clear free i.connection _ := reads_acts Connection.reads_clear acts i
  exact Idling.leads_done (waited.pending plain)

theorem leads_startTls (host : String) (secured : Wire.Stream) (c : Connection) :
    Connection.Leads free c (perform c (.startTls host secured)) := by
  have asked : Connection.Leads free c (c.execute (.named "STARTTLS")).2 :=
    Connection.commands_leads.execute _ c
  unfold perform
  dsimp only
  split
  next h =>
    obtain ⟨completion, c', he⟩ := Connection.execute_of_isHandshake h
    rw [he] at asked ⊢
    exact asked.trans (Connection.Step.secured secured (Connection.usable_of_execute he)).leads
  · exact asked

/-- Each operation leads along a course. Only lines of the caller's own can go out while a literal
waits. -/
theorem leads_perform (op : Operation) (c : Connection) (h : op.isLine = true → free) :
    Connection.Leads free c (perform c op) := by
  cases op with
  | nextTag => exact Connection.leads_nextTag c
  | send tag command => exact Connection.leads_send tag command c
  | sendLine line => exact Connection.leads_sendLine line (.inl (h rfl))
  | readResponse limit => exact (Connection.clear_readResponse limit c).leads
  | readUntil tag => exact Connection.commands_leads.readUntil tag c
  | execute command => exact Connection.commands_leads.execute command c
  | capability => exact Connection.commands_leads.capability c
  | noop => exact Connection.commands_leads.noop c
  | select mailbox => exact Connection.commands_leads.execute _ c
  | examine mailbox => exact Connection.commands_leads.execute _ c
  | login user password => exact Connection.commands_leads.login user password c
  | authenticate host strategy service tokens =>
    exact Connection.leads_authenticate host strategy service c tokens
  | idle acts stop => exact leads_idle acts stop c
  | startTls host secured => exact leads_startTls host secured c
  | logout => exact Connection.commands_leads.logout c
  | close => exact Connection.commands_leads.close c
  | sleep span => exact Connection.commands_leads.pause c span

theorem leads_run (ops : List Operation) (c : Connection)
    (h : (∃ op ∈ ops, op.isLine = true) → free) : Connection.Leads free c (run ops c) := by
  induction ops generalizing c with
  | nil => exact .refl c
  | cons op rest ih =>
    have first := leads_perform op c fun hl => h ⟨op, List.mem_cons_self, hl⟩
    exact first.trans (ih _ fun ⟨op', hm, hl⟩ => h ⟨op', List.mem_cons_of_mem _ hm, hl⟩)

/-! Where every call stays within a relation, so does every operation but the one that asks for
encryption. -/

def isStartTls : Operation → Bool
  | startTls .. => true
  | _ => false

theorem within_perform (h : Connection.Within rel) {op : Operation} (plain : op.isStartTls = false)
    (c : Connection) : rel c (perform c op) := by
  cases op with
  | nextTag => exact h.tag c
  | send tag command => exact h.command tag command c
  | sendLine line => exact h.line line c
  | readResponse limit => exact h.read limit c
  | readUntil tag => exact h.readUntil tag c
  | execute command => exact h.execute command c
  | capability => exact h.capability c
  | noop => exact h.noop c
  | select mailbox => exact h.execute _ c
  | examine mailbox => exact h.execute _ c
  | login user password => exact h.login user password c
  | authenticate host strategy service tokens =>
    exact h.authenticate (h.runSasl host strategy service tokens) c
  | idle acts stop => exact commands_idle h.toCommandsWithin acts stop c fun _ _ _ => h.done _
  | startTls host secured => cases plain
  | logout => exact h.logout c
  | close => exact h.close c
  | sleep span => exact h.pause c span

end Operation
end MailClient.Imap
