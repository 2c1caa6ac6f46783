import MailClient.Imap.Opening
import MailClient.Proofs.Imap.Idling
import MailClient.Proofs.Imap.Operations
import MailClient.Proofs.Imap.Scan
import MailClient.Proofs.Wire.Upgrading

/-! What a mailbox client says before encryption begins: STARTTLS, under its first tag. -/
namespace MailClient.Imap

def Response.greets : Response → Bool
  | .untagged u => u.status? == some .ok || u.status? == some .preauth
  | _ => false

namespace Connection

def speech : List Response → Bytes
  | [] => []
  | greeting :: _ => if greeting.greets then Bytes.line "A0000 STARTTLS" else []

/-- After the greeting there is the completion with OK, and untagged responses before it. -/
def Consent (items : List Response) : Prop :=
  ∃ (greeting : Response) (us : List Untagged) (code : Option (List Token)) (text : String),
    greeting.greets = true ∧
    items = greeting :: us.map .untagged ++ [.tagged ⟨"A0000"⟩ .ok code text]

def upgrade : Wire.Upgrade Response := ⟨speech, Consent⟩

variable {c c' : Connection} {r : Response} {limit : Duration} {tag : Tag} {command : Command}
  {u : Wire.Upgrade Response} {stream : Wire.Stream} {items : List Response} {said : Bytes}
  {greeting : Response} {completion : Completion}

/-! ### Writing -/

theorem stream_write (bytes : Bytes) (entry : Entry) (c : Connection) :
    (write bytes entry c).2.stream = (c.stream.write bytes c.ioLimit).2 := by
  unfold write
  dsimp only
  split <;> rfl

theorem write_all {bytes : Bytes} {entry : Entry} {u : Unit}
    (h : write bytes entry c = (.ok u, c')) :
    c.stream.write bytes c.ioLimit = (.all, c'.stream) := by
  unfold write at h
  dsimp only at h
  split at h
  next hw =>
    cases h
    exact Prod.ext hw rfl
  all_goals cases h

/-- Of a command no more than its first chunk goes out at once. -/
theorem talked_send (tag : Tag) (command : Command) (c : Connection) :
    ∃ part, part <+: (c.encoding tag command).first ∧
      c.stream.Talked (Parse.framing c.parse) [] part (send tag command c).2.stream := by
  have refused : ∃ part, part <+: (c.encoding tag command).first ∧
      c.stream.Talked (Parse.framing c.parse) [] part c.stream :=
    ⟨[], List.nil_prefix, .refl _ _⟩
  unfold send
  split
  · exact refused
  · split
    · exact refused
    · split
      · exact refused
      · have wrote := Wire.Stream.talked_write (Parse.framing c.parse)
          (c.encoding tag command).first c.ioLimit c.stream
        rw [← stream_write _ (.command tag command), encoding] at wrote
        dsimp only
        split
        next hw =>
          rw [hw] at wrote
          exact wrote
        next hw =>
          rw [hw] at wrote
          exact wrote

theorem talked_of_send {done : Unit} (h : send tag command c = (.ok done, c')) :
    c.stream.Talked (Parse.framing c.parse) [] (c.encoding tag command).first c'.stream := by
  unfold send at h
  split at h
  · cases h
  · split at h
    · cases h
    · split at h
      · cases h
      · dsimp only at h
        split at h
        · cases h
        next hw =>
          have out := write_all hw
          cases h
          exact Wire.Stream.talked_of_write _ out

/-! ### Reading -/

theorem stream_receive (limit : Duration) (c : Connection) :
    (receive limit c).2.stream = (c.stream.read (Parse.framing c.parse) limit).2 := by
  unfold receive
  dsimp only
  split
  all_goals try split
  all_goals rfl

/-- Where no literal waits, a response is read and nothing else happens. -/
theorem nextResponse_eq (hp : c.pending = none) (limit : Duration) :
    nextResponse limit c = match receive limit c with
      | (.error e, c) => (.error e, c)
      | (.ok r, c) => settle r c := by
  have idle {p : Except Error Response × Connection} (h : receive limit c = p) :
      p.2.pending = none := by
    rw [← h, pending_receive, hp]
  fun_induction nextResponse limit c with
  | case1 c e c' hr => rw [hr]
  | case2 c c₁ text t hr waits => cases waits.symm.trans (idle hr)
  | case3 c c₁ text t hr waits => cases waits.symm.trans (idle hr)
  | case4 c c₁ r hr => rw [hr]

theorem written_readResponse (hp : c.pending = none) (limit : Duration) :
    (readResponse limit c).2.stream.written = c.stream.written := by
  unfold readResponse
  split
  · rfl
  · rw [nextResponse_eq hp]
    have read := Wire.Stream.written_read (Parse.framing c.parse) limit c.stream
    rw [← stream_receive] at read
    rcases hr : receive limit c with ⟨e | r, c₁⟩
    · rw [hr] at read
      exact read
    · rw [hr] at read
      rcases hs : settle r c₁ with ⟨result, c₂⟩
      dsimp only
      rw [hs, stream_settle hs]
      exact read

structure Takes (c : Connection) (r : Response) (c' : Connection) : Prop where
  talked : c.stream.Talked (Parse.framing c.parse) [r] [] c'.stream
  parse : c'.parse = c.parse
  tags : c'.tags = c.tags

theorem takes_of_readResponse (h : readResponse limit c = (.ok r, c')) (hp : c.pending = none) :
    Takes c r c' := by
  obtain ⟨-, hn⟩ := readResponse_ok h
  rw [nextResponse_eq hp] at hn
  split at hn
  · cases hn
  next r' c₁ hr =>
    obtain ⟨rfl, -, capabilities, pending, -, hc⟩ := settle_ok hn
    unfold receive at hr
    dsimp only at hr
    split at hr
    all_goals cases hr
    next item =>
      rw [hc]
      exact ⟨Wire.Stream.talked_read Parse.seamless (Prod.ext item rfl), rfl, rfl⟩

theorem written_collect (hp : c.pending = none) (tag : Tag) (before : List Response) :
    (collect tag before c).2.stream.written = c.stream.written := by
  have heard {c c' : Connection} {result : Except Error Response} (hp : c.pending = none)
      (h : readResponse c.ioLimit c = (result, c')) : c'.stream.written = c.stream.written := by
    have silent := written_readResponse hp c.ioLimit
    rwa [h] at silent
  fun_induction collect tag before c with
  | case1 _ c e c₁ hr => exact heard hp hr
  | case2 _ c text c₁ hr =>
    have silent := heard hp hr
    exact silent
  | case3 _ c status code text c₁ hr => exact heard hp hr
  | case4 _ c completed status code text c₁ hr _ _ ih =>
    exact (ih ((heard_of_readResponse hr).pending_eq hp)).trans (heard hp hr)
  | case5 _ c u c₁ hr _ ih =>
    exact (ih ((heard_of_readResponse hr).pending_eq hp)).trans (heard hp hr)

/-- Where nothing else is outstanding, only untagged responses come before a completion. -/
theorem talked_collect {before : List Response} (h : collect tag before c = (.ok completion, c'))
    (hp : c.pending = none) (ho : c.outstanding = [tag]) : ∃ us : List Untagged,
      c.stream.Talked (Parse.framing c.parse) (us.map .untagged ++
        [.tagged tag completion.status completion.code completion.text]) [] c'.stream := by
  fun_induction collect tag before c with
  | case1 => cases h
  | case2 => cases h
  | case3 _ c status code text c₁ hr =>
    cases h
    exact ⟨[], (takes_of_readResponse hr hp).talked⟩
  | case4 _ c completed status code text c₁ hr hne _ _ =>
    have known := (heard_of_readResponse hr).known completed rfl
    rw [ho, List.mem_singleton] at known
    exact absurd known hne
  | case5 _ c u c₁ hr _ ih =>
    have heard := heard_of_readResponse hr
    have takes := takes_of_readResponse hr hp
    obtain ⟨us, talked⟩ := ih h (heard.pending_eq hp) (heard.outstanding.trans ho)
    rw [takes.parse] at talked
    exact ⟨u :: us, takes.talked.trans talked⟩

/-! ### Whole commands -/

theorem written_readUntil (hp : c.pending = none) (tag : Tag) :
    (readUntil tag c).2.stream.written = c.stream.written := by
  unfold readUntil
  split
  · exact written_collect hp tag []
  · rfl

/-- A command that may be given now says no more than it may, whatever comes of it. -/
theorem kept_execute (h : u.Keeps (Parse.framing c.parse) stream items said c.stream)
    (may : said ++ (c.encoding c.nextTag.1 command).first <+: u.speech items)
    (plain : command.arguments = []) :
    u.Kept (Parse.framing c.parse) stream (execute command c).2.stream := by
  obtain ⟨part, short, sent⟩ := talked_send c.nextTag.1 command c.nextTag.2
  have keeps : u.Keeps (Parse.framing c.parse) stream items (said ++ part) _ :=
    h.speaks sent ((List.prefix_self_append_iff.mpr short).trans may)
  unfold execute
  dsimp only
  split
  next hs =>
    rw [hs] at keeps
    exact keeps.kept
  next c₁ hs =>
    rw [hs] at keeps
    have silent := written_readUntil (pending_send_plain hs (by simp [plain])) c.nextTag.1
    split
    next hr =>
      rw [hr] at silent
      exact ⟨_, _, _, keeps, silent⟩
    next hr =>
      rw [hr] at silent
      split
      · exact ⟨_, _, _, keeps, silent⟩
      · exact ⟨_, _, _, keeps, silent⟩

/-- A command that is alone is completed by its own completion, with OK. -/
theorem keeps_execute (h : u.Keeps (Parse.framing c.parse) stream items said c.stream)
    (may : said ++ (c.encoding c.nextTag.1 command).first <+: u.speech items)
    (plain : command.arguments = []) (ho : c.outstanding = [])
    (he : execute command c = (.ok completion, c')) :
    ∃ us : List Untagged, u.Keeps (Parse.framing c.parse) stream
      (items ++ (us.map .untagged ++ [.tagged c.nextTag.1 .ok completion.code completion.text]))
      (said ++ (c.encoding c.nextTag.1 command).first) c'.stream := by
  unfold execute at he
  dsimp only at he
  split at he
  · cases he
  next c₁ hs =>
    split at he
    · cases he
    next hr =>
      split at he
      · cases he
      next hok =>
        cases he
        have idle := pending_send_plain hs (by simp [plain])
        obtain ⟨-, -, -, stream, pending, -, -, hc⟩ := send_ok hs
        have alone : c₁.outstanding = [c.nextTag.1] := by
          rw [hc, record, outstanding_nextTag, ho, List.nil_append]
        have parse : c₁.parse = c.parse := by
          rw [hc]
          rfl
        obtain ⟨us, talked⟩ := talked_collect (readUntil_ok hr).2 idle alone
        rw [parse, Idling.status_of_error?_eq_none hok] at talked
        have sent := @talked_of_send c.nextTag.2 c₁ c.nextTag.1 command () hs
        exact ⟨us, (h.speaks sent may).hears talked⟩

/-! ### Asking for encryption -/

theorem first_tag : (TagCounter.next [] (.start 'A')).1 = ⟨"A0000"⟩ := by decide +kernel

theorem first_startTls (c : Connection) :
    (c.encoding ⟨"A0000"⟩ (.named "STARTTLS")).first = Bytes.line "A0000 STARTTLS" := rfl

theorem speech_greeting (hg : greeting.greets = true) (later : List Response) :
    upgrade.speech (greeting :: later) = Bytes.line "A0000 STARTTLS" := by
  simp [upgrade, speech, hg]

theorem guarded_startTls (host : String)
    (h : upgrade.Keeps (Parse.framing c.parse) stream [greeting] [] c.stream)
    (hg : greeting.greets = true) (ht : c.tags = .start 'A') (ho : c.outstanding = []) :
    upgrade.Guarded (Parse.framing c.parse) host (.stream stream) (c.startTls host) := by
  have tag : c.nextTag.1 = ⟨"A0000"⟩ := by
    have drawn : c.nextTag.1 = (TagCounter.next [] (.start 'A')).1 := by
      rw [nextTag, ht, ho]
    exact drawn.trans first_tag
  have may : [] ++ (c.encoding c.nextTag.1 (.named "STARTTLS")).first <+:
      upgrade.speech [greeting] := by
    rw [speech_greeting hg, tag, first_startTls]
    exact List.prefix_refl _
  have kept := kept_execute h may rfl
  unfold startTls
  split
  next he =>
    rw [he] at kept
    exact .failed kept
  next completion after he =>
    rw [he] at kept
    split
    next hb =>
      unfold handshake
      split
      next valid =>
        obtain ⟨us, agreed⟩ := keeps_execute h may rfl ho he
        rw [tag, first_startTls, List.nil_append, List.singleton_append,
          ← speech_greeting hg (_ ++ _)] at agreed
        exact .handshake agreed ⟨greeting, us, _, _, hg, rfl⟩ (List.isEmpty_iff.mp hb) valid
      next => exact .failed kept
    next => exact .failed kept

theorem written_start (stream : Wire.Stream) (s : Settings) :
    (start stream s).2.stream.written = stream.written := by
  have silent : (readResponse (fresh stream s).ioLimit (fresh stream s)).2.stream.written =
      stream.written := written_readResponse rfl _
  unfold start greet
  split
  next hr =>
    rw [hr] at silent
    exact silent
  next u c hr =>
    rw [hr] at silent
    split
    all_goals exact silent
  next hr =>
    rw [hr] at silent
    exact silent

/-- A greeting leaves a connection that is fresh but for what it has heard. -/
theorem greeted_of_start {s : Settings} {u : Unit} (h : start stream s = (.ok u, c)) :
    ∃ greeting : Response, greeting.greets = true ∧
      stream.Talked (Parse.framing s.parse) [greeting] [] c.stream ∧
      c.parse = s.parse ∧ c.tags = .start 'A' ∧ c.outstanding = [] := by
  unfold start greet at h
  split at h
  · cases h
  next u c₁ hr =>
    have takes := takes_of_readResponse hr rfl
    have outstanding := (heard_of_readResponse hr).outstanding
    split at h
    next hu =>
      cases h
      exact ⟨.untagged u, by simp [Response.greets, hu], takes.talked, takes.parse, takes.tags,
        outstanding⟩
    next hu =>
      cases h
      exact ⟨.untagged u, by simp [Response.greets, hu], takes.talked, takes.parse, takes.tags,
        outstanding⟩
    · cases h
    · cases h
  · cases h

/-- A connection that asks for encryption never goes on in the clear. -/
theorem guarded_connect (dialled : Wire.Dialled) {s : Settings} (h : s.security = .startTls) :
    upgrade.Guarded (Parse.framing s.parse) s.host dialled (connect dialled s) := by
  unfold connect
  cases dialled with
  | fault => exact .undialled (by simp)
  | expired => exact .undialled (by simp)
  | stream stream =>
    have fresh {limits : Parse.Limits} :
        upgrade.Keeps (Parse.framing limits) stream [] [] stream := .begun
    rw [h]
    dsimp only
    split
    next c hs =>
      obtain ⟨greeting, hg, talked, parse, tags, outstanding⟩ := greeted_of_start hs
      rw [← parse] at talked ⊢
      exact guarded_startTls s.host (fresh.hears talked) hg tags outstanding
    next c hs =>
      have silent := written_start stream s
      rw [hs] at silent
      exact .failed ⟨_, _, _, fresh, silent⟩

end Connection
end MailClient.Imap
