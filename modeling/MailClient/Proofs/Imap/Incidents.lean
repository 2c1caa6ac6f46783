import MailClient.Proofs.Imap.Steps
import MailClient.Proofs.Wire.Writing

/-! What happens on the wire while a connection is in use. All operations are made of few steps,
each with the incidents that it causes, and a run is a course of such steps. -/
namespace MailClient.Imap

inductive Incident where
  /-- A response has been read to its end. -/
  | heard (r : Response)
  /-- The time was up before a response had begun. -/
  | silence
  /-- A response could not be read to its end. -/
  | lost (e : Error)
  /-- The octets of an entry went out in full. -/
  | wrote (entry : Entry) (bytes : Bytes)
  /-- Of the octets of an entry only the first `count` went out. -/
  | cut (entry : Entry) (bytes : Bytes) (count : Nat)
  /-- What has been read has no place in the conversation. -/
  | misfit (v : Violation)
  | closed

namespace Incident

def octets : Incident → Bytes
  | .wrote _ bytes => bytes
  | .cut _ bytes count => bytes.take count
  | _ => []

def written? : Incident → Option Entry
  | .wrote entry _ | .cut entry _ _ => some entry
  | _ => none

def recorded? : Incident → Option Entry
  | .heard r => some (.response r)
  | .wrote entry _ => some entry
  | _ => none

@[simp] theorem written_heard (r : Response) : (heard r).written? = none := rfl

@[simp] theorem written_misfit (v : Violation) : (misfit v).written? = none := rfl

@[simp] theorem written_closed : closed.written? = none := rfl

/-- After these nothing is known of the state of the stream. -/
def isUpset : Incident → Bool
  | .lost _ | .cut .. | .misfit _ | .closed => true
  | _ => false

def isTraffic : Incident → Bool
  | .misfit _ | .closed => false
  | _ => true

def isRequest : Incident → Bool
  | .heard (.continuation _) => true
  | _ => false

def completes (tag : Tag) : Incident → Bool
  | .heard (.tagged completed ..) => completed == tag
  | _ => false

def opens (tag : Tag) (i : Incident) : Bool :=
  match i.written? with
  | some (.command opened _) => opened == tag
  | _ => false

def hands (tag : Tag) (i : Incident) : Bool :=
  match i.written? with
  | some (.chunk owner _) => owner == tag
  | _ => false

end Incident

def Transfer.ofChunks (tag : Tag) : List Bytes → Option Transfer
  | [] => none
  | next :: later => some ⟨tag, next, later⟩

def Transfer.chunks (t : Transfer) : List Bytes := t.next :: t.later

theorem Transfer.mem_ofChunks {tag : Tag} {chunks : List Bytes} {t : Transfer} :
    t ∈ Transfer.ofChunks tag chunks ↔ t.tag = tag ∧ t.chunks = chunks := by
  cases chunks with
  | nil => simp [Transfer.ofChunks, Transfer.chunks]
  | cons next later =>
    obtain ⟨owner, first, rest⟩ := t
    simp only [Transfer.ofChunks, Transfer.chunks, Option.mem_def, Option.some.injEq,
      Transfer.mk.injEq, List.cons.injEq]
    exact ⟨fun ⟨ht, hn, hl⟩ => ⟨ht.symm, hn.symm, hl.symm⟩,
      fun ⟨ht, hn, hl⟩ => ⟨ht.symm, hn.symm, hl.symm⟩⟩

namespace Connection

def emitted (c : Connection) : Bytes := c.stream.sent.flatMap Wire.Sent.bytes

def encoding (c : Connection) (tag : Tag) (command : Command) : Command.Encoding :=
  command.encode tag !(c.literalPlus && c.hasCapability "LITERAL+")

def writing (entry : Entry) (bytes : Bytes) (c : Connection) : Incident :=
  match (c.stream.write bytes c.ioLimit).1 with
  | .all => .wrote entry bytes
  | _ => .cut entry bytes (c.stream.outlet.accept bytes.length).1

def hearing (limit : Duration) (c : Connection) : Incident :=
  match (c.stream.read (Parse.framing c.parse) limit).1 with
  | .item r => .heard r
  | .broken .closed => .lost (.io .closed)
  | .broken (.malformed position why) => .lost (.malformed position why)
  | .failed reason _ => .lost (.io (.reset reason))
  | .expired s => if s.isPartial then .lost (.timeout limit) else .silence

/-- The connection after a handshake. It goes on through `stream`, and the capabilities have to be
asked for again. -/
def secure (stream : Wire.Stream) (c : Connection) : Connection :=
  { c with stream := { stream with sent := c.stream.sent }, capabilities := [] }

/-- A step of a connection. Lines within an exchange are `free` if they may go out even while a
literal waits, for which only the caller of `sendLine` can ask. -/
inductive Step (free : Prop) : Connection → List Incident → Connection → Prop where
  | tag (c) : Step free c [] c.nextTag.2
  | pause (c) (span) : Step free c [] { c with stream := c.stream.wait span }
  | greeted (c) : Step free c [] { c with preauth := true }
  | secured {c} (stream) : c.usable = true → Step free c [] (c.secure stream)
  | command {c tag command} : c.usable = true → tag ∉ c.outstanding → c.pending = none →
      Step free c [c.writing (.command tag command) (c.encoding tag command).first]
        (send tag command c).2
  | line {c text} : c.usable = true → free ∨ c.pending = none →
      Step free c [c.writing (.line text) (Bytes.line text)] (sendLine text c).2
  | unheard {c limit e c'} : c.usable = true → receive limit c = (.error e, c') →
      Step free c [c.hearing limit] c'
  | chunk {c limit text c₁ t} : c.usable = true →
      receive limit c = (.ok (.continuation text), c₁) → c₁.pending = some t →
      Step free c [.heard (.continuation text), c₁.writing (.chunk t.tag t.next) t.next]
        (sendChunk t c₁).2
  | response {c limit r c₁ c'} : c.usable = true → receive limit c = (.ok r, c₁) →
      ((Incident.heard r).isRequest = true → c₁.pending = none) → settle r c₁ = (.ok r, c') →
      Step free c [.heard r] c'
  | stray {c limit r c₁ v c'} : c.usable = true → receive limit c = (.ok r, c₁) →
      settle r c₁ = (.error (.violation v), c') → Step free c [.heard r, .misfit v] c'
  | misfit (c) (v) : Step free c [.misfit v] c.poison
  | close (c) : Step free c [.closed] c.close

inductive Course (free : Prop) : Connection → List Incident → Connection → Prop where
  | refl (c) : Course free c [] c
  | step {c incidents c₁ later c'} : Step free c incidents c₁ → Course free c₁ later c' →
      Course free c (incidents ++ later) c'

variable {free : Prop} {incidents later : List Incident} {c c' : Connection} {r : Response}
  {e : Error} {limit : Duration} {tag : Tag} {command : Command} {entry : Entry} {bytes : Bytes}
  {t : Transfer}

theorem Course.single (h : Step free c incidents c') : Course free c incidents c' := by
  have led := Course.step h (.refl c')
  rwa [List.append_nil] at led

theorem Course.trans {c₁ : Connection} (h : Course free c incidents c₁)
    (h' : Course free c₁ later c') : Course free c (incidents ++ later) c' := by
  induction h with
  | refl => exact h'
  | step hs _ ih =>
    rw [List.append_assoc]
    exact .step hs (ih h')

/-! ### Writing -/

theorem octets_writing (entry : Entry) (bytes : Bytes) (c : Connection) :
    (c.writing entry bytes).octets = bytes.take (c.stream.outlet.accept bytes.length).1 := by
  unfold writing
  split
  next hw => rw [Wire.Stream.accept_of_write hw, List.take_length, Incident.octets]
  · rfl

/-- Either all goes out and is recorded, or the connection is unusable from then on. -/
theorem writing_cases (entry : Entry) (bytes : Bytes) (c : Connection) :
    ∃ stream : Wire.Stream,
      stream.sent.flatMap Wire.Sent.bytes = c.emitted ++ (c.writing entry bytes).octets ∧
      (c.writing entry bytes = .wrote entry bytes ∧
          write bytes entry c = (.ok (), { c with stream := stream }.record entry) ∨
        ∃ count e, c.writing entry bytes = .cut entry bytes count ∧
          write bytes entry c = (.error e, { c with stream := stream }.poison)) := by
  refine ⟨(c.stream.write bytes c.ioLimit).2, ?_, ?_⟩
  · rw [octets_writing]
    exact Wire.Stream.sent_write bytes c.ioLimit c.stream
  · unfold writing write
    dsimp only
    cases (c.stream.write bytes c.ioLimit).1 with
    | all => exact .inl ⟨rfl, rfl⟩
    | fault f => exact .inr ⟨_, _, rfl, rfl⟩
    | stalled => exact .inr ⟨_, _, rfl, rfl⟩

theorem send_cases (hu : c.usable = true) (ht : tag ∉ c.outstanding) (hp : c.pending = none) :
    ∃ stream : Wire.Stream,
      stream.sent.flatMap Wire.Sent.bytes = c.emitted ++
        (c.writing (.command tag command) (c.encoding tag command).first).octets ∧
      (c.writing (.command tag command) (c.encoding tag command).first =
            .wrote (.command tag command) (c.encoding tag command).first ∧
          send tag command c = (.ok (), { c with
            stream := stream
            outstanding := c.outstanding ++ [tag]
            pending := Transfer.ofChunks tag (c.encoding tag command).later
          }.record (.command tag command)) ∨
        ∃ count e, c.writing (.command tag command) (c.encoding tag command).first =
            .cut (.command tag command) (c.encoding tag command).first count ∧
          send tag command c = (.error e, { c with stream := stream }.poison)) := by
  obtain ⟨stream, hsent, ⟨hlabel, hw⟩ | ⟨count, e, hlabel, hw⟩⟩ :=
    writing_cases (.command tag command) (c.encoding tag command).first c
  · refine ⟨stream, hsent, .inl ⟨hlabel, ?_⟩⟩
    unfold encoding at hw ⊢
    unfold send
    rw [if_neg (by simp [hu]), if_neg (by simpa using ht), hp]
    dsimp only
    rw [hw]
    cases (command.encode tag !(c.literalPlus && c.hasCapability "LITERAL+")).later with
    | nil => rfl
    | cons next later => rfl
  · refine ⟨stream, hsent, .inr ⟨count, e, hlabel, ?_⟩⟩
    unfold encoding at hw
    unfold send
    rw [if_neg (by simp [hu]), if_neg (by simpa using ht), hp]
    dsimp only
    rw [hw, hp]

theorem sendChunk_cases (t : Transfer) (c : Connection) :
    ∃ stream : Wire.Stream,
      c.writing (.chunk t.tag t.next) t.next = .wrote (.chunk t.tag t.next) t.next ∧
          sendChunk t c = (.ok (), { c with
            stream := stream
            pending := Transfer.ofChunks t.tag t.later }.record (.chunk t.tag t.next)) ∨
        ∃ count e, c.writing (.chunk t.tag t.next) t.next =
            .cut (.chunk t.tag t.next) t.next count ∧
          sendChunk t c = (.error e, { c with
            stream := stream
            pending := Transfer.ofChunks t.tag t.later }.poison) := by
  obtain ⟨tag, next, later⟩ := t
  have rest : sendChunk ⟨tag, next, later⟩ c =
      write next (.chunk tag next) { c with pending := Transfer.ofChunks tag later } := by
    cases later with
    | nil => rfl
    | cons next' later => rfl
  rw [rest]
  obtain ⟨stream, -, ⟨hlabel, hw⟩ | ⟨count, e, hlabel, hw⟩⟩ := writing_cases (.chunk tag next) next
    { c with pending := Transfer.ofChunks tag later }
  · exact ⟨stream, .inl ⟨hlabel, hw⟩⟩
  · exact ⟨stream, .inr ⟨count, e, hlabel, hw⟩⟩

theorem sendLine_of_usable (hu : c.usable = true) (line : String) :
    sendLine line c = write (Bytes.line line) (.line line) c := by
  simp [sendLine, hu]

theorem write_books (bytes : Bytes) (entry : Entry) (c : Connection) :
    (write bytes entry c).2.outstanding = c.outstanding ∧
      (write bytes entry c).2.pending = c.pending := by
  obtain ⟨stream, -, ⟨-, hw⟩ | ⟨_, _, -, hw⟩⟩ := writing_cases entry bytes c
  · rw [hw]
    exact ⟨rfl, rfl⟩
  · rw [hw]
    exact ⟨rfl, rfl⟩

theorem sendChunk_books (t : Transfer) (c : Connection) :
    (sendChunk t c).2.outstanding = c.outstanding ∧
      (sendChunk t c).2.pending = Transfer.ofChunks t.tag t.later := by
  obtain ⟨stream, ⟨-, hs⟩ | ⟨_, _, -, hs⟩⟩ := sendChunk_cases t c
  · rw [hs]
    exact ⟨rfl, rfl⟩
  · rw [hs]
    exact ⟨rfl, rfl⟩

/-! ### Reading -/

theorem sent_receive (h : receive limit c = (.ok r, c')) : c'.stream.sent = c.stream.sent := by
  unfold receive at h
  dsimp only at h
  split at h <;> cases h
  rfl

theorem hearing_ok (h : receive limit c = (.ok r, c')) : c.hearing limit = .heard r := by
  cases hr : (c.stream.read (Parse.framing c.parse) limit).1 with
  | item r' =>
    simp only [receive, hr, Prod.mk.injEq, Except.ok.injEq] at h
    simp only [hearing, hr, h.1]
  | broken f => cases f <;> simp [receive, hr] at h
  | failed reason s => simp [receive, hr] at h
  | expired s => simp [receive, hr] at h

/-- A read that fails makes the connection unusable, unless nothing of a response had come. -/
theorem hearing_error (h : receive limit c = (.error e, c')) :
    ∃ stream : Wire.Stream, stream.sent = c.stream.sent ∧
      (c.hearing limit = .lost e ∧ c' = { c with stream := stream }.poison ∨
        c.hearing limit = .silence ∧ c' = { c with stream := stream }) := by
  refine ⟨(c.stream.read (Parse.framing c.parse) limit).2, rfl, ?_⟩
  cases hr : (c.stream.read (Parse.framing c.parse) limit).1 with
  | item r => simp [receive, hr] at h
  | broken f =>
    refine .inl ?_
    cases f <;>
      · simp only [receive, hr, Prod.mk.injEq, Except.error.injEq] at h
        simp only [hearing, hr, ← h.1, ← h.2, and_self]
  | failed reason s =>
    refine .inl ?_
    simp only [receive, hr, Prod.mk.injEq, Except.error.injEq] at h
    simp only [hearing, hr, ← h.1, ← h.2, and_self]
  | expired s =>
    simp only [receive, hr, Prod.mk.injEq, Except.error.injEq] at h
    simp only [hearing, hr, ← h.1, ← h.2]
    by_cases hs : s.isPartial = true
    · exact .inl (by simp [hs])
    · exact .inr (by simp [hs])

/-- Neither the tags nor what waits depend on whether a response comes. -/
theorem receive_books {result : Except Error Response} (h : receive limit c = (result, c')) :
    c'.outstanding = c.outstanding ∧ c'.pending = c.pending := by
  cases result with
  | ok r =>
    obtain ⟨stream, rfl⟩ := receive_ok h
    exact ⟨rfl, rfl⟩
  | error e =>
    obtain ⟨stream, -, ⟨-, rfl⟩ | ⟨-, rfl⟩⟩ := hearing_error h
    · exact ⟨rfl, rfl⟩
    · exact ⟨rfl, rfl⟩

theorem stream_settle {result : Except Error Response} (h : settle r c = (result, c')) :
    c'.stream = c.stream := by
  cases result with
  | ok r' =>
    obtain ⟨-, -, _, _, -, rfl⟩ := settle_ok h
    rfl
  | error e =>
    obtain ⟨rfl, -⟩ := settle_error h
    rfl

/-- A completion takes away its tag, and the literal that its command still had. -/
theorem settle_books {r' : Response} (h : settle r c = (.ok r', c')) :
    c'.outstanding = r.unsettled c.outstanding ∧
      c'.pending = c.pending.filter fun t => r.tag? != some t.tag := by
  have whole : c.pending.filter (fun _ => true) = c.pending := by cases c.pending <;> rfl
  have observed (c : Connection) : (c.observe r).outstanding = c.outstanding ∧
      (c.observe r).pending = c.pending := by
    obtain ⟨capabilities, ho⟩ := observe_eq r c
    rw [ho]
    exact ⟨rfl, rfl⟩
  cases r with
  | tagged tag status code text =>
    simp only [settle] at h
    split at h
    · cases h
    · cases h
      refine ⟨(observed _).1, (observed _).2.trans ?_⟩
      refine congrArg (Option.filter · c.pending) (funext fun t => ?_)
      simp [Response.tag?, bne, Bool.beq_comm]
  | untagged u =>
    cases h
    exact ⟨(observed c).1, (observed c).2.trans whole.symm⟩
  | continuation text =>
    cases h
    exact ⟨(observed c).1, (observed c).2.trans whole.symm⟩

/-- A completion that belongs to no command changes nothing but that the connection is lost. -/
theorem settle_stray {v : Violation} (h : settle r c = (.error (.violation v), c')) :
    c' = c.poison ∧ ∃ tag, r.tag? = some tag ∧ tag ∉ c.outstanding ∧ v = .unknownTag tag := by
  cases r with
  | tagged tag status code text =>
    simp only [settle] at h
    split at h
    next ht =>
      cases h
      exact ⟨rfl, tag, rfl, by simpa using ht, rfl⟩
    · cases h
  | untagged u => cases h
  | continuation text => cases h

/-! ### What is written -/

theorem written_writing (entry : Entry) (bytes : Bytes) (c : Connection) :
    (c.writing entry bytes).written? = some entry := by
  obtain ⟨-, -, ⟨hlabel, -⟩ | ⟨_, _, hlabel, -⟩⟩ := writing_cases entry bytes c
  · rw [hlabel, Incident.written?]
  · rw [hlabel, Incident.written?]

theorem written_hearing (limit : Duration) (c : Connection) :
    (c.hearing limit).written? = none := by
  unfold hearing
  split
  all_goals try split
  all_goals rfl

/-! ### What goes out -/

theorem emitted_eq_of_sent {c c' : Connection} (h : c'.stream.sent = c.stream.sent) :
    c'.emitted = c.emitted := by
  rw [emitted, h, emitted]

theorem emitted_write (bytes : Bytes) (entry : Entry) (c : Connection) :
    (write bytes entry c).2.emitted = c.emitted ++ (c.writing entry bytes).octets := by
  obtain ⟨stream, hsent, ⟨-, hw⟩ | ⟨_, _, -, hw⟩⟩ := writing_cases entry bytes c
  · rw [hw]
    exact hsent
  · rw [hw]
    exact hsent

/-- Nothing goes out while a response is read and matched. -/
theorem emitted_settle {c₁ : Connection} {result : Except Error Response}
    (hr : receive limit c = (.ok r, c₁)) (hs : settle r c₁ = (result, c')) :
    c'.emitted = c.emitted := by
  rw [emitted, stream_settle hs, sent_receive hr, emitted]

theorem emitted_step (h : Step free c incidents c') :
    c'.emitted = c.emitted ++ incidents.flatMap Incident.octets := by
  cases h with
  | command hu ht hp =>
    rw [List.flatMap_singleton]
    obtain ⟨stream, hsent, ⟨-, hs⟩ | ⟨_, _, -, hs⟩⟩ := send_cases hu ht hp
    · rw [hs]
      exact hsent
    · rw [hs]
      exact hsent
  | line hu =>
    rw [sendLine_of_usable hu, emitted_write, List.flatMap_singleton]
  | unheard hu hr =>
    obtain ⟨stream, hsent, ⟨hlabel, rfl⟩ | ⟨hlabel, rfl⟩⟩ := hearing_error hr
    · rw [hlabel, emitted_eq_of_sent hsent]
      exact (List.append_nil _).symm
    · rw [hlabel, emitted_eq_of_sent hsent]
      exact (List.append_nil _).symm
  | chunk hu hr hp =>
    have received := emitted_eq_of_sent (sent_receive hr)
    rw [sendChunk, emitted_write, List.flatMap_cons, List.flatMap_singleton]
    exact congrArg (· ++ _) received
  | response hu hr hp hs =>
    rw [emitted_settle hr hs]
    exact (List.append_nil _).symm
  | stray hu hr hs =>
    rw [emitted_settle hr hs]
    exact (List.append_nil _).symm
  | _ => exact (List.append_nil _).symm

/-- All that goes out in the course of a run are the octets of its incidents, in their order. -/
theorem emitted_course (h : Course free c incidents c') :
    c'.emitted = c.emitted ++ incidents.flatMap Incident.octets := by
  induction h with
  | refl c => simp
  | step hs _ ih => rw [ih, emitted_step hs, List.flatMap_append, List.append_assoc]

/-! ### Transcripts -/

theorem transcript_write (bytes : Bytes) (entry : Entry) (c : Connection) :
    (write bytes entry c).2.transcript =
      c.transcript ++ [c.writing entry bytes].filterMap Incident.recorded? := by
  obtain ⟨stream, -, ⟨hlabel, hw⟩ | ⟨_, _, hlabel, hw⟩⟩ := writing_cases entry bytes c
  · rw [hw, hlabel]
    rfl
  · rw [hw, hlabel]
    exact (List.append_nil _).symm

theorem transcript_step (h : Step free c incidents c') :
    c'.transcript = c.transcript ++ incidents.filterMap Incident.recorded? := by
  cases h with
  | command hu ht hp =>
    obtain ⟨stream, -, ⟨hlabel, hs⟩ | ⟨_, _, hlabel, hs⟩⟩ := send_cases hu ht hp
    · rw [hs, hlabel]
      rfl
    · rw [hs, hlabel]
      exact (List.append_nil _).symm
  | line hu => rw [sendLine_of_usable hu, transcript_write]
  | unheard hu hr =>
    obtain ⟨stream, -, ⟨hlabel, rfl⟩ | ⟨hlabel, rfl⟩⟩ := hearing_error hr
    · rw [hlabel]
      exact (List.append_nil _).symm
    · rw [hlabel]
      exact (List.append_nil _).symm
  | chunk hu hr hp =>
    obtain ⟨stream, rfl⟩ := receive_ok hr
    rw [sendChunk, transcript_write]
    exact List.append_assoc _ _ _
  | response hu hr hp hs =>
    obtain ⟨stream, rfl⟩ := receive_ok hr
    obtain ⟨-, -, _, _, -, rfl⟩ := settle_ok hs
    rfl
  | stray hu hr hs =>
    obtain ⟨stream, rfl⟩ := receive_ok hr
    obtain ⟨rfl, -⟩ := settle_error hs
    rfl
  | _ => exact (List.append_nil _).symm

/-- What a run adds to the transcript is what was written in full and what was read in full. -/
theorem transcript_course (h : Course free c incidents c') :
    c'.transcript = c.transcript ++ incidents.filterMap Incident.recorded? := by
  induction h with
  | refl c => simp
  | step hs _ ih => rw [ih, transcript_step hs, List.filterMap_append, List.append_assoc]

/-! ### Upsets -/

theorem usable_write (bytes : Bytes) (entry : Entry) (c : Connection) :
    (write bytes entry c).2.usable = (c.usable && !(c.writing entry bytes).isUpset) := by
  obtain ⟨stream, -, ⟨hlabel, hw⟩ | ⟨_, _, hlabel, hw⟩⟩ := writing_cases entry bytes c
  · rw [hw, hlabel]
    exact (Bool.and_true _).symm
  · rw [hw, hlabel]
    exact (Bool.and_false _).symm

/-- A step makes a connection unusable exactly if it is an upset, which is the last it does. -/
theorem usable_step (h : Step free c incidents c') :
    c'.usable = (c.usable && incidents.all fun i => !i.isUpset) := by
  cases h with
  | command hu ht hp =>
    obtain ⟨stream, -, ⟨hlabel, hs⟩ | ⟨_, _, hlabel, hs⟩⟩ := send_cases hu ht hp
    · rw [hs, hlabel]
      exact (Bool.and_true _).symm
    · rw [hs, hlabel]
      exact (Bool.and_false _).symm
  | line hu =>
    rw [sendLine_of_usable hu, usable_write, List.all_cons, List.all_nil, Bool.and_true]
  | unheard hu hr =>
    obtain ⟨stream, -, ⟨hlabel, rfl⟩ | ⟨hlabel, rfl⟩⟩ := hearing_error hr
    · rw [hlabel]
      exact (Bool.and_false _).symm
    · rw [hlabel]
      exact (Bool.and_true _).symm
  | chunk hu hr hp =>
    obtain ⟨stream, rfl⟩ := receive_ok hr
    rw [sendChunk, usable_write]
    simp [Incident.isUpset, record, writing]
  | response hu hr hp hs =>
    obtain ⟨stream, rfl⟩ := receive_ok hr
    obtain ⟨-, -, _, _, -, rfl⟩ := settle_ok hs
    exact (Bool.and_true _).symm
  | stray hu hr hs =>
    obtain ⟨rfl, -⟩ := settle_error hs
    exact (Bool.and_false _).symm
  | misfit => exact (Bool.and_false _).symm
  | close => exact (Bool.and_false _).symm
  | _ => exact (Bool.and_true _).symm

theorem usable_course (h : Course free c incidents c') :
    c'.usable = (c.usable && incidents.all fun i => !i.isUpset) := by
  induction h with
  | refl c => exact (Bool.and_true _).symm
  | step hs _ ih => rw [ih, usable_step hs, List.all_append, Bool.and_assoc]

theorem append_cons_eq_singleton {α : Type} {front back : List α} {a b : α}
    (h : front ++ a :: back = [b]) : front = [] ∧ a = b ∧ back = [] := by
  cases front with
  | nil => simpa using h
  | cons x rest => simp at h

theorem append_cons_eq_pair {α : Type} {front back : List α} {a b b' : α}
    (h : front ++ a :: back = [b, b']) :
    front = [] ∧ a = b ∧ back = [b'] ∨ front = [b] ∧ a = b' ∧ back = [] := by
  cases front with
  | nil => exact .inl (by simpa using h)
  | cons x rest =>
    obtain ⟨rfl, hrest⟩ := List.cons.inj h
    obtain ⟨rfl, ha, hback⟩ := append_cons_eq_singleton hrest
    exact .inr ⟨rfl, ha, hback⟩

/-- Nothing of a step comes after an upset. -/
theorem upset_last {before after : List Incident} {u : Incident}
    (h : Step free c (before ++ u :: after) c') (hu : u.isUpset = true) : after = [] := by
  generalize hi : before ++ u :: after = incidents at h
  have pair {r : Response} {i : Incident} (hi : before ++ u :: after = [.heard r, i]) :
      after = [] := by
    rcases append_cons_eq_pair hi with ⟨-, rfl, -⟩ | ⟨-, -, hafter⟩
    · cases hu
    · exact hafter
  cases h with
  | tag | pause | greeted | secured => simp at hi
  | chunk | stray => exact pair hi
  | _ => exact (append_cons_eq_singleton hi).2.2

/-- A connection that is unusable has no traffic. -/
theorem silent_step (h : Step free c incidents c') (hu : c.usable = false) :
    (∀ i ∈ incidents, i.isTraffic = false) ∧ c'.stream.inbox = c.stream.inbox ∧
      c'.stream.sent = c.stream.sent := by
  cases h with
  | tag => exact ⟨by simp, rfl, rfl⟩
  | pause => exact ⟨by simp, rfl, rfl⟩
  | greeted => exact ⟨by simp, rfl, rfl⟩
  | misfit v => exact ⟨by simp [Incident.isTraffic], rfl, rfl⟩
  | close => exact ⟨by simp [Incident.isTraffic], rfl, rfl⟩
  | _ => simp_all

theorem silent_course (h : Course free c incidents c') (hu : c.usable = false) :
    (∀ i ∈ incidents, i.isTraffic = false) ∧ c'.stream.inbox = c.stream.inbox ∧
      c'.stream.sent = c.stream.sent := by
  induction h with
  | refl c => exact ⟨by simp, rfl, rfl⟩
  | step hs _ ih =>
    obtain ⟨quiet, hinbox, hsent⟩ := silent_step hs hu
    obtain ⟨quiet', hinbox', hsent'⟩ := ih (by rw [usable_step hs, hu, Bool.false_and])
    refine ⟨?_, hinbox'.trans hinbox, hsent'.trans hsent⟩
    intro i hi
    rcases List.mem_append.mp hi with hi | hi
    · exact quiet i hi
    · exact quiet' i hi

/-! ### Finding a step -/

/-- Each incident belongs to a step, between what came before and what came after. -/
theorem Course.split {before after : List Incident} {i : Incident}
    (h : Course free c (before ++ i :: after) c') : ∃ past front c₁ back c₂ future,
      before = past ++ front ∧ after = back ++ future ∧ Course free c past c₁ ∧
        Step free c₁ (front ++ i :: back) c₂ ∧ Course free c₂ future c' := by
  generalize hi : before ++ i :: after = incidents at h
  induction h generalizing before with
  | refl => simp at hi
  | @step c incidents c₁ later c' hs hc ih =>
    -- The incident comes in a later step, or in this one.
    rcases List.append_eq_append_iff.mp hi with ⟨rest, rfl, hrest⟩ | ⟨rest, rfl, hrest⟩
    · cases rest with
      | nil =>
        obtain ⟨past, front, c₂, back, c₃, future, hb, ha, hpast, hstep, hfuture⟩ :=
          @ih [] hrest
        obtain ⟨rfl, rfl⟩ := List.append_eq_nil_iff.mp hb.symm
        refine ⟨before, [], c₂, back, c₃, future, by simp, ha, ?_, hstep, hfuture⟩
        simpa using Course.step hs hpast
      | cons j rest =>
        cases hrest
        exact ⟨[], before, c, rest, c₁, later, rfl, rfl, .refl c, hs, hc⟩
    · obtain ⟨past, front, c₂, back, c₃, future, hb, ha, hpast, hstep, hfuture⟩ :=
        ih hrest.symm
      exact ⟨incidents ++ past, front, c₂, back, c₃, future, by simp [hb], ha, .step hs hpast,
        hstep, hfuture⟩

/-- In a course, everything from an upset on happens on a connection that is unusable. -/
theorem course_upset {before after : List Incident} {u : Incident}
    (h : Course free c (before ++ u :: after) c') (hu : u.isUpset = true) :
    ∃ c₁, Course free c (before ++ [u]) c₁ ∧ c₁.usable = false ∧ Course free c₁ after c' := by
  obtain ⟨past, front, c₀, back, c₁, future, rfl, rfl, hpast, hstep, hfuture⟩ := h.split
  obtain rfl := upset_last hstep hu
  have led := hpast.trans (.single hstep)
  refine ⟨c₁, by simpa using led, ?_, hfuture⟩
  rw [usable_step hstep]
  simp [hu]

end Connection
end MailClient.Imap
