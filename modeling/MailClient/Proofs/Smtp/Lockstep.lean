import MailClient.Proofs.Smtp.Authenticating
import MailClient.Proofs.Smtp.Envelope

/-! Mail sessions in step with their server. Whatever is done in whatever order, what is said and
the replies that are read keep to one count, and a message goes out only where DATA was answered
with 354. -/
namespace MailClient.Smtp

variable {τ : Type}

/-! ### Judging replies -/

def verdict (reply : Reply) : Except Error Unit :=
  match reply.error? with
  | none => .ok ()
  | some e => .error e

def permission (reply : Reply) : Except Error Unit :=
  if reply.code = dataCode then .ok () else .error reply.refusal

def granted : Sasl.Outcome → Except Error Unit
  | .authenticated _ => .ok ()
  | .unauthenticated => .error (.unsupported "AUTH")

def Stage.has (stage : Stage) : Operation τ → Bool
  | .hello | .authenticate .. => stage == .connected
  | .mail _ => stage.isIdle
  | .rcpt _ | .reset => stage.takesRecipients
  | .data => stage == .recipient
  | .message _ => stage == .data
  | .noop | .quit => true

/-- The command of an operation that has no other, if its address is one. -/
def Operation.single? (server : Server) : Operation τ → Option (Except Error Command)
  | .mail sender => some ((Address.ofText sender).map fun a =>
      .mail a (if server.supports .eightBitMime then some "8BITMIME" else none) none)
  | .rcpt recipient => some ((Address.ofText recipient).map .rcpt)
  | .reset => some (.ok .rset)
  | .noop => some (.ok .noop)
  | .quit => some (.ok .quit)
  | .hello | .authenticate .. | .data | .message _ => none

/-- The last DATA was answered with 354, and since then there was nothing but NOOP. -/
def Permitted (past : List Turn) : Prop :=
  ∃ earlier reply idle, past = earlier ++ ⟨.command .data, .ok reply⟩ :: idle ∧
    reply.code = dataCode ∧ ∀ t ∈ idle, t.said = .command .noop

def authenticator (host : String) (strategy : Sasl.Strategy) (service : Sasl.TokenService τ) :
    Sasl.Authenticator (Dialogue τ) :=
  { host := host, strategy := strategy, tokens := Dialogue.tokenProvider service }

/-- What an operation says in its turns after those of the past, and what comes of it. It is judged
by the answers in its own turns and by nothing else. -/
inductive Judged (past : List Turn) : {stage : Stage} → Session stage → Operation τ → List Turn →
    Option (Except Error Unit) → Prop where
  | introduced {s : Session .connected} {answer : Except Error Reply} :
      (∀ reply, answer = .ok reply → isUnknownCommand reply.code = false) →
      Judged past s .hello [⟨.command (.ehlo s.clientName), answer⟩] (some (answer.bind verdict))
  | fellBack {s : Session .connected} {reply : Reply} {answer : Except Error Reply} :
      isUnknownCommand reply.code = true →
      Judged past s .hello
        [⟨.command (.ehlo s.clientName), .ok reply⟩, ⟨.command (.helo s.clientName), answer⟩]
        (some (answer.bind verdict))
  | authenticated {s : Session .connected} {host strategy service calls r n turns} :
      s.server.mechanisms ≠ [] →
      (authenticator host strategy service).Ran .auth (s.server.mechanisms.map .offer) .fresh
        calls r n →
      Dialogue.Carried calls turns →
      Judged past s (.authenticate host strategy service) turns (some (r.bind granted))
  | unsupported {s : Session .connected} {host strategy service} : s.server.mechanisms = [] →
      Judged past s (.authenticate host strategy service) [] (some (.error (.unsupported "AUTH")))
  | single {stage} {s : Session stage} {o : Operation τ} {c : Command}
      {answer : Except Error Reply} :
      stage.has o = true → o.single? s.server = some (.ok c) →
      Judged past s o [⟨.command c, answer⟩] (some (answer.bind verdict))
  | misaddressed {stage} {s : Session stage} {o : Operation τ} {e : Error} :
      stage.has o = true → o.single? s.server = some (.error e) →
      Judged past s o [] (some (.error e))
  | data {s : Session .recipient} {answer : Except Error Reply} :
      Judged past s .data [⟨.command .data, answer⟩] (some (answer.bind permission))
  | message {s : Session .data} {content : Bytes} {answer : Except Error Reply} : Permitted past →
      Judged past s (.message content) [⟨.message content, answer⟩] (some (answer.bind verdict))
  | unavailable {stage} {s : Session stage} {o : Operation τ} : stage.has o = false →
      Judged past s o [] none

/-! ### Chains of operations -/

structure Act (τ : Type) where
  operation : Operation τ
  result : Option (Except Error Unit)
  after : Client

def Act.succeeds (a : Act τ) : Bool :=
  match a.result with
  | some (.ok ()) => true
  | _ => false

def Client.chain : Client → List (Operation τ) → τ → List (Act τ)
  | .gone _, _, _ => []
  | .live .., [], _ => []
  | .live stage s, o :: ops, tokens =>
    let (result, after, tokens) := perform o (.live stage s) tokens
    ⟨o, result, after⟩ :: after.chain ops tokens

structure InStep (name : String) (script left : List WrittenReply) (past turns : List Turn)
    {stage : Stage} (s : Session stage) (a : Act τ) : Prop where
  judged : Judged past s a.operation turns a.result
  conversed : Conversed turns script left s.stream a.after.stream
  /-- Without an error one reply has been read for each turn, and what was said is out. -/
  whole : (∀ e, a.result ≠ some (.error e)) →
    (∃ read, script = read ++ left ∧ turns.map Turn.answer = read.map fun w => .ok w.reply) ∧
      a.after.stream.written = s.stream.written ++ turns.flatMap fun t => t.said.octets
  /-- After an error there is no session. -/
  lost : ∀ e, a.result = some (.error e) → ∃ stream, a.after = .gone stream
  lines : Text.IsLine name → ∀ t ∈ turns, t.said.IsLine

inductive Lockstep (name : String) :
    Client → List WrittenReply → List Turn → List (Act τ) → List Turn → Prop where
  | nil (c script past) : Lockstep name c script past [] []
  | act {stage} {s : Session stage} {script left past turns later} {a : Act τ} {acts} :
      InStep name script left past turns s a →
      Lockstep name a.after left (past ++ turns) acts later →
      Lockstep name (.live stage s) script past (a :: acts) (turns ++ later)

def Client.last (c : Client) : List (Act τ) → Client
  | [] => c
  | a :: acts => a.after.last acts

/-! ### One operation -/

variable {name : String} {script left : List WrittenReply} {past turns : List Turn}
  {stage next : Stage} {s : Session stage} {o : Operation τ} {a : Act τ}

namespace InStep

theorem of_answered (judged : Judged past s a.operation turns a.result)
    (conversed : Conversed turns script left s.stream a.after.stream)
    (answered : (∀ e, a.result ≠ some (.error e)) → ∀ t ∈ turns, t.Answered)
    (lost : ∀ e, a.result = some (.error e) → ∃ stream, a.after = .gone stream)
    (lines : Text.IsLine name → ∀ t ∈ turns, t.said.IsLine) :
    InStep name script left past turns s a where
  judged := judged
  conversed := conversed
  whole ok := by
    obtain ⟨out, paired, written⟩ := conversed.paired
    obtain ⟨read, rfl⟩ := paired.whole (answered ok)
    exact ⟨read, written⟩
  lost := lost
  lines := lines

/-- Nothing is said. -/
theorem silent (h : Holds script s.stream) (judged : Judged past s a.operation [] a.result)
    (same : a.after.stream = s.stream)
    (lost : ∀ e, a.result = some (.error e) → ∃ stream, a.after = .gone stream) :
    InStep name script script past [] s a := by
  have still : Conversed [] script script s.stream a.after.stream :=
    .still h ⟨congrArg _ same, congrArg _ same, congrArg _ same⟩
  apply of_answered judged still _ lost
  · intro _
    exact List.forall_mem_nil _
  · intro _
    exact List.forall_mem_nil _

theorem answered (h : InStep name script left past turns s a)
    (ok : ∀ e, a.result ≠ some (.error e)) : ∀ t ∈ turns, t.Answered := by
  obtain ⟨⟨read, -, answers⟩, -⟩ := h.whole ok
  intro t ht
  obtain ⟨w, -, same⟩ := List.mem_map.mp (answers ▸ List.mem_map_of_mem ht)
  exact ⟨w.reply, same.symm⟩

end InStep

def Outcome.of (r : Except Error Unit) (s : Session next) : Outcome next :=
  match r with
  | .ok () => .next s
  | .error e => .lost e s.stream

def Client.of (r : Except Error Unit) (s : Session next) : Client :=
  match r with
  | .ok () => .live next s
  | .error _ => .gone s.stream

theorem Client.ofOutcome_of (r : Except Error Unit) (s : Session next) :
    ofOutcome (.of r s) = (some r, .of r s) := by
  rcases r with e | _ <;> rfl

theorem Client.lost_of {r : Except Error Unit} {s : Session next} (e : Error)
    (h : some r = some (.error e)) : ∃ stream, Client.of r s = .gone stream := by
  obtain rfl := Option.some.inj h
  exact ⟨s.stream, rfl⟩

@[simp] theorem Client.stream_of (r : Except Error Unit) (s : Session next) :
    (Client.of r s).stream = s.stream := by
  rcases r with e | _ <;> rfl

/-- A request and the judgement on its reply. -/
theorem Session.follow_bind {m : Action Wire.Stream Error Reply}
    {f : Reply → Action Wire.Stream Error Unit} {judgement : Reply → Except Error Unit}
    (hf : ∀ reply stream, f reply stream = (judgement reply, stream)) (s : Session stage) :
    (s.follow (m >>= f) : Outcome next) =
      .of ((m s.stream).1.bind judgement) { s with stream := (m s.stream).2 } := by
  have ran : Action.bind m f s.stream =
      ((m s.stream).1.bind judgement, (m s.stream).2) := by
    unfold Action.bind
    rcases m s.stream with ⟨e | reply, stream⟩
    · rfl
    · exact hf reply stream
  unfold Session.follow
  rw [show (m >>= f) s.stream = _ from ran]
  rcases (m s.stream).1.bind judgement with e | _ <;> rfl

theorem accepted_eq (reply : Reply) (stream : Wire.Stream) :
    accepted reply stream = (verdict reply, stream) := by
  unfold accepted verdict
  cases reply.error? <;> rfl

theorem Session.command_judged (c : Command) (s : Session stage) :
    (s.command c : Outcome next) = .of ((request c s.ioLimit s.stream).1.bind verdict)
      { s with stream := (request c s.ioLimit s.stream).2 } :=
  follow_bind accepted_eq s

theorem Session.message_judged (content : Bytes) (s : Session .data) :
    s.message content = .of ((exchange (Message.encode content) s.ioLimit s.stream).1.bind verdict)
      { s with stream := (exchange (Message.encode content) s.ioLimit s.stream).2 } :=
  follow_bind accepted_eq s

theorem Session.data_judged (s : Session .recipient) :
    s.data = .of ((request .data s.ioLimit s.stream).1.bind permission)
      { s with stream := (request .data s.ioLimit s.stream).2 } := by
  refine follow_bind (fun reply stream => ?_) s
  unfold permission
  split <;> rfl

def Client.Ready (name : String) (past : List Turn) : Client → Prop
  | .gone _ => True
  | .live stage s => s.clientName = name ∧ (stage = .data → Permitted past)

theorem answered_of_judged {answer : Except Error Reply} {judgement : Reply → Except Error Unit}
    (ok : ∀ e, some (answer.bind judgement) ≠ some (.error e)) : ∃ reply, answer = .ok reply := by
  cases answer with
  | error e => exact absurd rfl (ok e)
  | ok reply => exact ⟨reply, rfl⟩

/-- One turn, and the judgement on its answer. -/
theorem InStep.single {said : Utterance} {judgement : Reply → Except Error Unit}
    {answer : Except Error Reply} {stream : Wire.Stream} {after : Client}
    (h : Holds script s.stream) (asked : exchange said.octets s.ioLimit s.stream = (answer, stream))
    (judged : Judged past s o [⟨said, answer⟩] (some (answer.bind judgement)))
    (line : Text.IsLine name → said.IsLine)
    (lost : ∀ e, some (answer.bind judgement) = some (.error e) → ∃ stream, after = .gone stream)
    (still : Still stream after.stream) :
    ∃ left, InStep name script left past [⟨said, answer⟩] s
      ⟨o, some (answer.bind judgement), after⟩ := by
  obtain ⟨left, conversed⟩ := conversed_exchange h said s.ioLimit
  rw [asked] at conversed
  refine ⟨left, .of_answered judged ?_ ?_ lost ?_⟩
  · exact conversed.append_still still
  · exact fun ok => List.forall_mem_singleton.mpr (answered_of_judged ok)
  · exact fun hn => List.forall_mem_singleton.mpr (line hn)

/-- The same, where the session goes on if the judgement is good. -/
theorem InStep.single_of {said : Utterance} {judgement : Reply → Except Error Unit}
    {answer : Except Error Reply} {stream : Wire.Stream} (next : Stage)
    (h : Holds script s.stream) (asked : exchange said.octets s.ioLimit s.stream = (answer, stream))
    (judged : Judged past s o [⟨said, answer⟩] (some (answer.bind judgement)))
    (line : Text.IsLine name → said.IsLine) :
    ∃ left, InStep name script left past [⟨said, answer⟩] s ⟨o, some (answer.bind judgement),
      .of (answer.bind judgement) ({ s with stream := stream } : Session next)⟩ := by
  refine InStep.single h asked judged line Client.lost_of ?_
  rw [Client.stream_of]
  exact ⟨rfl, rfl, rfl⟩

def Advances (name : String) (script : List WrittenReply) (past : List Turn) (s : Session stage)
    (o : Operation τ) (result : Option (Except Error Unit)) (after : Client) : Prop :=
  ∃ turns left, InStep name script left past turns s ⟨o, result, after⟩ ∧
    after.Ready name (past ++ turns)

/-- A command of its own keeps to its line: an address has no line ends. -/
theorem Operation.isLine_single {server : Server} {c : Command}
    (h : o.single? server = some (.ok c)) : (Utterance.command c).IsLine := by
  cases o with
  | hello | authenticate | data | message => cases h
  | mail sender =>
    simp only [single?, Option.some_inj] at h
    cases found : Address.ofText sender with
    | error e =>
      rw [found] at h
      cases h
    | ok a =>
      rw [found] at h
      cases h
      refine Envelope.isLine_mail a ?_ none
      split <;> decide
  | rcpt recipient =>
    simp only [single?, Option.some_inj] at h
    cases found : Address.ofText recipient with
    | error e =>
      rw [found] at h
      cases h
    | ok a =>
      rw [found] at h
      cases h
      exact Envelope.isLine_rcpt a
  | reset | noop | quit =>
    cases h
    change Text.IsLine _
    decide

theorem Client.ready_of {r : Except Error Unit} {s : Session next} (hn : s.clientName = name)
    (permitted : r = .ok () → next = .data → Permitted past) :
    (Client.of r s).Ready name past := by
  rcases r with e | _
  · trivial
  · exact ⟨hn, permitted rfl⟩

theorem Permitted.noop (h : Permitted past) (answer : Except Error Reply) :
    Permitted (past ++ [⟨.command .noop, answer⟩]) := by
  obtain ⟨earlier, reply, idle, rfl, code, silent⟩ := h
  refine ⟨earlier, reply, idle ++ [⟨.command .noop, answer⟩], by simp, code, ?_⟩
  exact List.forall_mem_append.mpr ⟨silent, List.forall_mem_singleton.mpr rfl⟩

theorem advances_command {c : Command} (available : stage.has o = true)
    (single : o.single? s.server = some (.ok c)) (h : Holds script s.stream)
    (ready : (Client.live stage s).Ready name past)
    (keeps : next = .data → stage = .data ∧ c = .noop) :
    Advances name script past s o (Client.ofOutcome (s.command c : Outcome next)).1
      (Client.ofOutcome (s.command c : Outcome next)).2 := by
  rw [Session.command_judged, Client.ofOutcome_of]
  rcases asked : request c s.ioLimit s.stream with ⟨answer, stream⟩
  have exchanged : exchange (Utterance.command c).octets s.ioLimit s.stream = (answer, stream) :=
    asked
  obtain ⟨left, step⟩ := InStep.single_of next h exchanged (.single available single)
    fun _ => o.isLine_single single
  refine ⟨[⟨.command c, answer⟩], left, step, Client.ready_of ready.1 fun _ data => ?_⟩
  obtain ⟨same, rfl⟩ := keeps data
  exact (ready.2 same).noop answer

theorem Session.quit_judged {s : Session stage} {answer : Except Error Reply}
    {stream : Wire.Stream} (asked : request .quit s.ioLimit s.stream = (answer, stream)) :
    ∃ stream', s.quit = (answer.bind verdict, stream') ∧ Still stream stream' := by
  unfold Session.quit
  rw [asked]
  cases answer with
  | error e => exact ⟨stream, rfl, rfl, rfl, rfl⟩
  | ok reply =>
    dsimp only [Except.bind]
    unfold verdict
    cases reply.error? with
    | none => exact ⟨stream.shutDown, rfl, rfl, rfl, rfl⟩
    | some e => exact ⟨stream, rfl, rfl, rfl, rfl⟩

theorem advances_quit (h : Holds script s.stream) :
    Advances name script past s (.quit : Operation τ) (some s.quit.1) (.gone s.quit.2) := by
  rcases asked : request .quit s.ioLimit s.stream with ⟨answer, stream⟩
  obtain ⟨stream', quit, still⟩ := Session.quit_judged asked
  rw [quit]
  have exchanged : exchange (Utterance.command .quit).octets s.ioLimit s.stream =
      (answer, stream) := asked
  have single : ∃ left, InStep name script left past [⟨.command .quit, answer⟩] s
      ⟨(.quit : Operation τ), some (answer.bind verdict), .gone stream'⟩ :=
    InStep.single h exchanged (.single rfl rfl)
      (fun _ => @Operation.isLine_single τ .quit s.server _ rfl) (fun _ _ => ⟨stream', rfl⟩)
      still
  obtain ⟨left, step⟩ := single
  exact ⟨_, left, step, trivial⟩

theorem advances_data {s : Session .recipient} (h : Holds script s.stream)
    (ready : (Client.live .recipient s).Ready name past) :
    Advances name script past s (.data : Operation τ) (Client.ofOutcome s.data).1
      (Client.ofOutcome s.data).2 := by
  rw [Session.data_judged, Client.ofOutcome_of]
  rcases asked : request .data s.ioLimit s.stream with ⟨answer, stream⟩
  have exchanged : exchange (Utterance.command .data).octets s.ioLimit s.stream =
      (answer, stream) := asked
  have line : (Utterance.command .data).IsLine := by
    change Text.IsLine _
    decide
  obtain ⟨left, step⟩ := InStep.single_of .data h exchanged .data fun _ => line
  refine ⟨[⟨.command .data, answer⟩], left, step, Client.ready_of ready.1 fun allowed _ => ?_⟩
  cases answer with
  | error e => cases allowed
  | ok reply =>
    refine ⟨past, reply, [], rfl, ?_, List.forall_mem_nil _⟩
    simp only [Except.bind, permission] at allowed
    split at allowed
    next code => exact code
    next => cases allowed

theorem advances_message {s : Session .data} (content : Bytes) (h : Holds script s.stream)
    (ready : (Client.live .data s).Ready name past) :
    Advances name script past s (.message content : Operation τ)
      (Client.ofOutcome (s.message content)).1 (Client.ofOutcome (s.message content)).2 := by
  rw [Session.message_judged, Client.ofOutcome_of]
  rcases asked : exchange (Message.encode content) s.ioLimit s.stream with ⟨answer, stream⟩
  have exchanged : exchange (Utterance.message content).octets s.ioLimit s.stream =
      (answer, stream) := asked
  obtain ⟨left, step⟩ := InStep.single_of .connected h exchanged (.message (ready.2 rfl))
    fun _ => trivial
  exact ⟨_, left, step, Client.ready_of ready.1 nofun⟩

/-! ### Introductions -/

theorem isLine_hello {s : Session .connected} (hn : s.clientName = name) (h : Text.IsLine name) :
    (Utterance.command (.ehlo s.clientName)).IsLine ∧
      (Utterance.command (.helo s.clientName)).IsLine := by
  rw [hn]
  have verbs : Text.IsLine "EHLO" ∧ Text.IsLine "HELO" := by decide
  have name : Text.IsLine (" " ++ name) := Text.isLine_append.mpr ⟨by decide, h⟩
  exact ⟨Text.isLine_append.mpr ⟨verbs.1, name⟩, Text.isLine_append.mpr ⟨verbs.2, name⟩⟩

theorem not_isSuccess_of_isUnknownCommand {reply : Reply} (h : isUnknownCommand reply.code = true) :
    reply.isSuccess = false := by
  have code : reply.code = 500 ∨ reply.code = 502 := by simpa [isUnknownCommand] using h
  unfold Reply.isSuccess
  rcases code with code | code <;> rw [code] <;> rfl

theorem Session.hello_introduced {s : Session .connected} {answer : Except Error Reply}
    {stream : Wire.Stream}
    (asked : request (.ehlo s.clientName) s.ioLimit s.stream = (answer, stream))
    (known : ∀ reply, answer = .ok reply → isUnknownCommand reply.code = false) :
    ∃ s' : Session .connected, s'.clientName = s.clientName ∧ s'.stream = stream ∧
      s.hello = .of (answer.bind verdict) s' := by
  unfold Session.hello
  rw [asked]
  cases answer with
  | error e => exact ⟨{ s with stream := stream }, rfl, rfl, rfl⟩
  | ok reply =>
    dsimp only [Except.bind]
    rw [known reply rfl, if_neg Bool.false_ne_true]
    unfold verdict Reply.error?
    by_cases accepts : reply.isSuccess = true
    · rw [if_pos accepts, if_pos accepts]
      exact ⟨Session.withExtensions (Server.extensionsOfLines (reply.lines.drop 1))
        { s with stream := stream }, rfl, rfl, rfl⟩
    · rw [if_neg accepts, if_neg accepts]
      exact ⟨{ s with stream := stream }, rfl, rfl, rfl⟩

/-- Where EHLO is not known, HELO is what counts. -/
theorem Session.hello_fellBack {s : Session .connected} {reply : Reply}
    {stream stream' : Wire.Stream} {answer : Except Error Reply}
    (asked : request (.ehlo s.clientName) s.ioLimit s.stream = (.ok reply, stream))
    (unknown : isUnknownCommand reply.code = true)
    (asked' : request (.helo s.clientName) s.ioLimit stream = (answer, stream')) :
    ∃ s' : Session .connected, s'.clientName = s.clientName ∧ s'.stream = stream' ∧
      s.hello = .of (answer.bind verdict) s' := by
  unfold Session.hello
  rw [asked]
  dsimp only
  rw [not_isSuccess_of_isUnknownCommand unknown, if_neg Bool.false_ne_true, if_pos unknown,
    Session.command_judged]
  dsimp only
  rw [asked']
  refine ⟨Session.withExtensions [] { s with stream := stream' }, rfl, rfl, ?_⟩
  rcases answer.bind verdict with e | _ <;> rfl

theorem advances_hello {s : Session .connected} (h : Holds script s.stream)
    (ready : (Client.live .connected s).Ready name past) :
    Advances name script past s (.hello : Operation τ) (Client.ofOutcome s.hello).1
      (Client.ofOutcome s.hello).2 := by
  have lines := fun hn => isLine_hello ready.1 hn
  obtain ⟨middle, first⟩ := conversed_request h (.ehlo s.clientName) s.ioLimit
  rcases asked : request (.ehlo s.clientName) s.ioLimit s.stream with ⟨answer, stream⟩
  rw [asked] at first
  by_cases fallback : ∃ reply, answer = .ok reply ∧ isUnknownCommand reply.code = true
  · obtain ⟨reply, rfl, unknown⟩ := fallback
    obtain ⟨left, second⟩ := conversed_request first.holds (.helo s.clientName) s.ioLimit
    rcases asked' : request (.helo s.clientName) s.ioLimit stream with ⟨answer, stream'⟩
    rw [asked'] at second
    obtain ⟨s', same, rfl, hello⟩ := Session.hello_fellBack asked unknown asked'
    rw [hello, Client.ofOutcome_of]
    refine ⟨_, left, .of_answered (.fellBack unknown) ?_ ?_ Client.lost_of ?_,
      Client.ready_of ?_ nofun⟩
    · rw [Client.stream_of]
      exact first.append (List.forall_mem_singleton.mpr ⟨reply, rfl⟩) second
    · exact fun ok => List.forall_mem_cons.mpr
        ⟨⟨reply, rfl⟩, List.forall_mem_singleton.mpr (answered_of_judged ok)⟩
    · exact fun hn => List.forall_mem_cons.mpr
        ⟨(lines hn).1, List.forall_mem_singleton.mpr (lines hn).2⟩
    · exact same.trans ready.1
  · have known : ∀ reply, answer = .ok reply → isUnknownCommand reply.code = false :=
      fun reply hr => Bool.eq_false_iff.mpr fun unknown => fallback ⟨reply, hr, unknown⟩
    obtain ⟨s', same, rfl, hello⟩ := Session.hello_introduced asked known
    rw [hello, Client.ofOutcome_of]
    refine ⟨_, middle, .of_answered (.introduced known) ?_ ?_ Client.lost_of ?_,
      Client.ready_of ?_ nofun⟩
    · rw [Client.stream_of]
      exact first
    · exact fun ok => List.forall_mem_singleton.mpr (answered_of_judged ok)
    · exact fun hn => List.forall_mem_singleton.mpr (lines hn).1
    · exact same.trans ready.1

/-! ### Authentications -/

theorem Session.authenticate_eq {s : Session .connected} (offers : s.server.mechanisms ≠ [])
    (host : String) (strategy : Sasl.Strategy) (service : Sasl.TokenService τ) (tokens : τ)
    {r : Except Error Sasl.Outcome} {n : Sasl.Negotiation} {d : Dialogue τ}
    (ran : (authenticator host strategy service).run Dialogue.transport
      (s.server.mechanisms.map .offer) (.fresh, ⟨s.stream, s.ioLimit, false, tokens⟩) = (r, n, d)) :
    (s.authenticate host strategy service tokens).1 =
      .of (r.bind granted) { s with stream := d.stream } := by
  rw [authenticator] at ran
  unfold Session.authenticate
  split
  next none => exact absurd none offers
  next =>
    unfold Smtp.authenticate
    dsimp only
    rw [ran]
    rcases r with e | scheme | _ <;> rfl

theorem advances_authenticate {s : Session .connected} (host : String) (strategy : Sasl.Strategy)
    (service : Sasl.TokenService τ) (tokens : τ) (h : Holds script s.stream)
    (ready : (Client.live .connected s).Ready name past) :
    Advances name script past s (.authenticate host strategy service)
      (Client.ofOutcome (s.authenticate host strategy service tokens).1).1
      (Client.ofOutcome (s.authenticate host strategy service tokens).1).2 := by
  by_cases offers : s.server.mechanisms = []
  · have unsupported : (s.authenticate host strategy service tokens).1 =
        .lost (.unsupported "AUTH") s.stream := by
      unfold Session.authenticate
      rw [offers]
    rw [unsupported]
    exact ⟨[], script, .silent h (.unsupported offers) rfl fun _ _ => ⟨s.stream, rfl⟩, trivial⟩
  · have holds : Holds script (Dialogue.mk s.stream s.ioLimit false tokens).stream := h
    obtain ⟨turns, left, spoken⟩ := Dialogue.spoken_run (authenticator host strategy service) rfl
      (s.server.mechanisms.map .offer) holds
    have ran := (authenticator host strategy service).ran Dialogue.transport
      (s.server.mechanisms.map .offer) .fresh ⟨s.stream, s.ioLimit, false, tokens⟩
    have sendable := (authenticator host strategy service).sendable_calls Dialogue.transport
      (s.server.mechanisms.map .offer) ⟨s.stream, s.ioLimit, false, tokens⟩
    generalize (authenticator host strategy service).calls Dialogue.transport
      (s.server.mechanisms.map .offer) .fresh ⟨s.stream, s.ioLimit, false, tokens⟩ = calls
      at spoken ran sendable
    rcases done : (authenticator host strategy service).run Dialogue.transport
      (s.server.mechanisms.map .offer) (.fresh, ⟨s.stream, s.ioLimit, false, tokens⟩) with ⟨r, n, d⟩
    rw [done] at spoken ran
    rw [Session.authenticate_eq offers host strategy service tokens done, Client.ofOutcome_of]
    refine ⟨turns, left, .of_answered (.authenticated offers ran spoken.carried) ?_ ?_
      Client.lost_of ?_, Client.ready_of ready.1 nofun⟩
    · rw [Client.stream_of]
      exact spoken.conversed
    · intro ok
      cases r with
      | error e => exact absurd rfl (ok e)
      | ok outcome => exact spoken.answered outcome rfl
    · exact fun _ => spoken.carried.isLine sendable

/-! ### Performing -/

theorem perform_unavailable (unavailable : stage.has o = false) (tokens : τ) :
    Client.perform o (.live stage s) tokens = (none, .live stage s, tokens) := by
  cases stage <;> cases o <;> first | (cases unavailable; done) | rfl

theorem advances_unavailable (unavailable : stage.has o = false) (h : Holds script s.stream)
    (ready : (Client.live stage s).Ready name past) :
    Advances name script past s o none (.live stage s) := by
  refine ⟨[], script, .silent h (.unavailable unavailable) rfl nofun, ?_⟩
  rw [List.append_nil]
  exact ready

theorem advances_addressed {text : String} {f : Address → Outcome next} {c : Address → Command}
    (hf : ∀ a, f a = s.command (c a)) (available : stage.has o = true)
    (single : o.single? s.server = some ((Address.ofText text).map c)) (hn : next ≠ .data)
    (h : Holds script s.stream) (ready : (Client.live stage s).Ready name past) :
    Advances name script past s o (Client.addressed text s f).1
      (Client.addressed text s f).2 := by
  unfold Client.addressed
  cases found : Address.ofText text with
  | ok a =>
    rw [found] at single
    dsimp only
    rw [hf]
    exact advances_command available single h ready fun data => absurd data hn
  | error e =>
    rw [found] at single
    exact ⟨[], script, .silent h (.misaddressed available single) rfl fun _ _ => ⟨s.stream, rfl⟩,
      trivial⟩

/-- Every operation keeps to the script. -/
theorem advances_perform (tokens : τ) (h : Holds script s.stream)
    (ready : (Client.live stage s).Ready name past) :
    Advances name script past s o (Client.perform o (.live stage s) tokens).1
      (Client.perform o (.live stage s) tokens).2.1 := by
  cases available : stage.has o with
  | false =>
    rw [perform_unavailable available]
    exact advances_unavailable available h ready
  | true =>
    cases o with
    | hello =>
      obtain rfl : stage = .connected := by simpa [Stage.has] using available
      dsimp only [Client.perform]
      exact advances_hello h ready
    | authenticate host strategy service =>
      obtain rfl : stage = .connected := by simpa [Stage.has] using available
      dsimp only [Client.perform]
      exact advances_authenticate host strategy service tokens h ready
    | mail sender =>
      cases stage with
      | connected | authenticated =>
        exact advances_addressed (fun _ => rfl) available rfl (by simp) h ready
      | mail | recipient | data => cases available
    | rcpt recipient =>
      cases stage with
      | mail | recipient =>
        exact advances_addressed (fun _ => rfl) available rfl (by simp) h ready
      | connected | authenticated | data => cases available
    | reset =>
      cases stage with
      | mail | recipient =>
        dsimp only [Client.perform, Session.reset]
        exact advances_command available rfl h ready nofun
      | connected | authenticated | data => cases available
    | data =>
      obtain rfl : stage = .recipient := by simpa [Stage.has] using available
      dsimp only [Client.perform]
      exact advances_data h ready
    | message content =>
      obtain rfl : stage = .data := by simpa [Stage.has] using available
      dsimp only [Client.perform]
      exact advances_message content h ready
    | noop =>
      have step : Advances name script past s (.noop : Operation τ) (Client.ofOutcome s.noop).1
          (Client.ofOutcome s.noop).2 :=
        advances_command available rfl h ready fun data => ⟨data, rfl⟩
      cases stage <;> exact step
    | quit =>
      cases stage <;> exact advances_quit h

/-! ### Chains -/

theorem Client.chain_gone (stream : Wire.Stream) (ops : List (Operation τ)) (tokens : τ) :
    chain (.gone stream) ops tokens = [] := by
  cases ops <;> rfl

theorem lockstep_chain (ops : List (Operation τ)) (tokens : τ) {c : Client}
    (h : Holds script c.stream) (ready : c.Ready name past) :
    ∃ turns left, Lockstep name c script past (c.chain ops tokens) turns ∧
      Conversed turns script left c.stream (c.last (c.chain ops tokens)).stream := by
  induction ops generalizing c tokens script past with
  | nil => cases c <;> exact ⟨[], script, .nil _ script past, .still h ⟨rfl, rfl, rfl⟩⟩
  | cons o ops ih =>
    cases c with
    | gone stream => exact ⟨[], script, .nil _ script past, .still h ⟨rfl, rfl, rfl⟩⟩
    | live stage s =>
      have advanced := advances_perform (o := o) tokens h ready
      rw [Client.chain]
      generalize Client.perform o (.live stage s) tokens = p at advanced ⊢
      obtain ⟨result, after, tokens'⟩ := p
      obtain ⟨turns, middle, step, ready'⟩ := advanced
      dsimp only
      by_cases ok : ∀ e, result ≠ some (.error e)
      · obtain ⟨later, left, steps, conversed⟩ := ih tokens' step.conversed.holds ready'
        exact ⟨turns ++ later, left, .act step steps,
          step.conversed.append (step.answered ok) conversed⟩
      · -- Without a session the chain is over.
        obtain ⟨e, failed⟩ := not_forall_not.mp ok
        obtain ⟨stream, rfl⟩ : ∃ stream, after = .gone stream := step.lost e failed
        rw [Client.chain_gone]
        refine ⟨turns ++ [], middle, .act step (.nil _ _ _), ?_⟩
        rw [List.append_nil]
        exact step.conversed

/-- How a session begins and goes on: it is there if the first reply is a greeting, and then the
chain keeps to the replies after it with all of its turns. Before that nothing is said. -/
def Began (name : String) (script : List WrittenReply) (outlet : Wire.Outlet)
    (ops : List (Operation τ)) (tokens : τ) : Outcome .connected → Prop
  | .lost _ stream => stream.written = [] ∧
    ∀ greeting rest, script = greeting :: rest → greeting.reply.code ≠ greetingCode
  | .next s => s.stream.written = [] ∧ s.stream.outlet = outlet ∧
    ∃ greeting rest, script = greeting :: rest ∧ greeting.reply.code = greetingCode ∧
      Holds rest s.stream ∧
      let acts := Client.chain (.live .connected s) ops tokens
      ∃ turns left, Lockstep name (.live .connected s) rest [] acts turns ∧
        Conversed turns rest left s.stream (Client.last (.live .connected s) acts).stream

/-- On a stream of replies, cut anywhere, every chain of operations is in step with the server. -/
theorem lockstep (script : List WrittenReply) (pieces : List Bytes) (outlet : Wire.Outlet)
    (settings : Settings) (ops : List (Operation τ)) (tokens : τ)
    (octets : pieces.flatten = script.flatMap WrittenReply.octets) :
    Began settings.clientName script outlet ops tokens
      (Session.start (.start (pieces.map .data) outlet) settings) := by
  have holds : Holds script (.start (pieces.map .data) outlet) := ⟨[], pieces, rfl, octets⟩
  unfold Session.start
  cases script with
  | nil =>
    obtain ⟨s', ended, -, -, written⟩ := readReply_over holds settings.ioLimit
    rw [ended]
    exact ⟨written, nofun⟩
  | cons greeting rest =>
    obtain ⟨s', read, holds', same, written⟩ := readReply_next holds settings.ioLimit
    rw [read]
    dsimp only
    by_cases code : greeting.reply.code = greetingCode
    · rw [if_pos code]
      refine ⟨written, same, greeting, rest, rfl, code, holds', ?_⟩
      exact lockstep_chain ops tokens holds' ⟨rfl, nofun⟩
    · rw [if_neg code]
      refine ⟨written, ?_⟩
      rintro greeting' rest' ⟨⟩
      exact code

def hospitable : List WrittenReply :=
  [.ofTexts '2' '2' '0' ["mx ready"], .ofTexts '2' '5' '0' ["mx", "8BITMIME"],
    .ofTexts '2' '5' '0' ["ok"], .ofTexts '2' '5' '0' ["ok"], .ofTexts '3' '5' '4' ["go on"],
    .ofTexts '2' '5' '0' ["taken"], .ofTexts '2' '2' '1' ["bye"]]

def delivery : List (Operation Unit) :=
  [.hello, .mail "a@b", .rcpt "c@d", .data, .message (Bytes.ofText "hi\n.\n"), .quit]

def cutReplies : List Bytes :=
  [Bytes.ofText "220 mx re", Bytes.ofText "ady\r\n250-mx\r\n250 8BITMIME\r",
    Bytes.ofText "\n250 ok\r\n250 ok\r\n35", Bytes.ofText "4 go on\r\n250 taken\r\n221 bye\r\n"]

theorem lockstep_delivery :
    ∃ s, Session.start (.start (cutReplies.map .data) .unlimited) { host := "mx" } = .next s ∧
      (Client.chain (.live .connected s) delivery ()).map Act.succeeds = List.replicate 6 true ∧
      ∃ turns left, Lockstep "localhost" (.live .connected s) hospitable.tail []
          (Client.chain (.live .connected s) delivery ()) turns ∧
        Conversed turns hospitable.tail left s.stream
          (Client.last (.live .connected s)
            (Client.chain (.live .connected s) delivery ())).stream := by
  have octets : cutReplies.flatten = hospitable.flatMap WrittenReply.octets := by decide +kernel
  have began := lockstep hospitable cutReplies .unlimited { host := "mx" } delivery () octets
  have succeed : (match Session.start (.start (cutReplies.map .data) .unlimited)
        { host := "mx" } with
      | .next s => (Client.chain (.live .connected s) delivery ()).map Act.succeeds
      | .lost _ _ => []) = List.replicate 6 true := by decide +kernel
  generalize Session.start (.start (cutReplies.map .data) .unlimited) { host := "mx" } = o
    at began succeed
  cases o with
  | lost e stream => exact absurd rfl (began.2 _ _ rfl)
  | next s =>
    obtain ⟨-, -, greeting, rest, same, -, -, step⟩ := began
    cases same
    exact ⟨s, rfl, succeed, step⟩

end MailClient.Smtp
