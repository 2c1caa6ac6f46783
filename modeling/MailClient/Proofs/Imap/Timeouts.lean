import MailClient.Proofs.Imap.Delivery
import MailClient.Proofs.Imap.Opening
import MailClient.Proofs.Wire.Patience

/-! Reading responses while the time is limited. However the limits fall, the responses that are
dealt with are the first ones that the server has sent, each of them once and in their order. A
limit that runs out between two of them leaves everything as it was. -/
namespace MailClient.Imap

def Completion.response (d : Completion) : Response := .tagged d.tag d.status d.code d.text

/-- What becomes of a response: the caller gets it, or a chunk that waited is the answer. -/
inductive Turn where
  | returned (r : Response)
  | answered (text : String) (tag : Tag) (chunk : Bytes)

namespace Turn

def response : Turn → Response
  | returned r => r
  | answered text _ _ => .continuation text

def returned? : Turn → Option Response
  | returned r => some r
  | answered .. => none

def chunk? : Turn → Option (Tag × Bytes)
  | returned _ => none
  | answered _ tag chunk => some (tag, chunk)

def said : Turn → Bytes
  | returned _ => []
  | answered _ _ chunk => chunk

end Turn

def unsettledBy (rs : List Response) (tags : List Tag) : List Tag :=
  rs.foldl (fun tags r => r.unsettled tags) tags

def announcedBy (rs : List Response) (names : List String) : List String :=
  rs.foldl (fun names r => r.capabilities?.getD names) names

namespace Connection

variable {c c' c₁ : Connection} {r : Response} {e : Error} {limit : Duration} {tag : Tag}
  {t : Transfer} {turns later : List Turn}

def content (c : Connection) : Bytes := c.stream.content

/-- From `c` to `c'` responses were read, and nothing else happened to the connection than what
they bring about. -/
structure Hears (c : Connection) (turns : List Turn) (c' : Connection) : Prop where
  talked : c.stream.Talked (Parse.framing c.parse) (turns.map Turn.response)
    (turns.flatMap Turn.said) c'.stream
  outstanding : c'.outstanding = unsettledBy (turns.map Turn.response) c.outstanding
  capabilities : c'.capabilities = announcedBy (turns.map Turn.response) c.capabilities
  /-- Chunks go out in their order, and those that are left are given up together. -/
  queue : ∃ left, c.queue = turns.filterMap Turn.chunk? ++ left ∧
    (c'.queue = left ∨ c'.queue = [])
  usable : c'.usable = c.usable
  outlet : c.stream.outlet.IsOpen → c'.stream.outlet.IsOpen
  parse : c'.parse = c.parse
  ioLimit : c'.ioLimit = c.ioLimit

theorem Hears.refl (c : Connection) : Hears c [] c :=
  ⟨.refl _ _, rfl, rfl, ⟨c.queue, rfl, .inl rfl⟩, rfl, id, rfl, rfl⟩

theorem Hears.trans (h : Hears c turns c₁) (h' : Hears c₁ later c') :
    Hears c (turns ++ later) c' where
  talked := by
    have talked := h'.talked
    rw [h.parse] at talked
    rw [List.map_append, List.flatMap_append]
    exact h.talked.trans talked
  outstanding := by
    rw [h'.outstanding, h.outstanding, List.map_append, unsettledBy, unsettledBy, unsettledBy,
      List.foldl_append]
  capabilities := by
    rw [h'.capabilities, h.capabilities, List.map_append, announcedBy, announcedBy, announcedBy,
      List.foldl_append]
  queue := by
    obtain ⟨left, hq, hl⟩ := h.queue
    obtain ⟨left', hq', hl'⟩ := h'.queue
    rw [List.filterMap_append]
    rcases hl with hl | hl
    · exact ⟨left', by rw [hq, ← hl, hq', List.append_assoc], hl'⟩
    · -- Nothing is left to answer with, so the later turns answer nothing.
      rw [hl, eq_comm, List.append_eq_nil_iff] at hq'
      obtain ⟨none, rfl⟩ := hq'
      refine ⟨left, by rw [hq, none, List.append_nil], .inr ?_⟩
      exact hl'.elim id id
  usable := h'.usable.trans h.usable
  outlet := fun ho => h'.outlet (h.outlet ho)
  parse := h'.parse.trans h.parse
  ioLimit := h'.ioLimit.trans h.ioLimit

/-! ### One response -/

theorem receive_item (h : receive limit c = (.ok r, c')) :
    c.stream.read (Parse.framing c.parse) limit = (.item r, c'.stream) := by
  unfold receive at h
  dsimp only at h
  split at h
  all_goals cases h
  next item => exact Prod.ext item rfl

theorem outlet_receive (limit : Duration) (c : Connection) :
    (receive limit c).2.stream.outlet = c.stream.outlet := by
  rw [stream_receive]
  rfl

theorem talked_receive (h : receive limit c = (.ok r, c')) :
    c.stream.Talked (Parse.framing c.parse) [r] [] c'.stream :=
  Wire.Stream.talked_read Parse.seamless (receive_item h)

theorem capabilities_settle {r' : Response} (h : settle r c = (.ok r', c')) :
    c'.capabilities = r.capabilities?.getD c.capabilities := by
  have observed (c : Connection) :
      (c.observe r).capabilities = r.capabilities?.getD c.capabilities := by
    unfold observe
    cases r.capabilities? with
    | none => rfl
    | some names => rfl
  cases r with
  | tagged tag status code text =>
    simp only [settle] at h
    split at h
    · cases h
    · cases h
      exact observed _
  | untagged u =>
    cases h
    exact observed c
  | continuation text =>
    cases h
    exact observed c

theorem queue_filter {p : Transfer → Bool} (h : c'.pending = c.pending.filter p) :
    c'.queue = c.queue ∨ c'.queue = [] := by
  unfold queue
  rw [h]
  cases hp : c.pending with
  | none => exact .inl rfl
  | some t =>
    by_cases ht : p t = true
    · rw [Option.filter_some, if_pos ht]
      exact .inl rfl
    · rw [Option.filter_some, if_neg ht]
      exact .inr rfl

theorem hears_returned (hr : receive limit c = (.ok r, c₁)) {r' : Response}
    (hs : settle r c₁ = (.ok r', c')) : Hears c [.returned r] c' where
  talked := by
    rw [stream_settle hs]
    exact talked_receive hr
  outstanding := by
    rw [(settle_books hs).1, (receive_books hr).1]
    rfl
  capabilities := by
    obtain ⟨stream, rfl⟩ := receive_ok hr
    have announced := capabilities_settle hs
    exact announced
  queue := by
    obtain ⟨stream, rfl⟩ := receive_ok hr
    exact ⟨c.queue, rfl, queue_filter (settle_books hs).2⟩
  usable := by
    obtain ⟨stream, rfl⟩ := receive_ok hr
    obtain ⟨-, -, _, _, -, rfl⟩ := settle_ok hs
    rfl
  outlet := by
    intro ho
    have outlet := outlet_receive limit c
    rw [hr] at outlet
    rw [stream_settle hs, outlet]
    exact ho
  parse := by
    obtain ⟨stream, rfl⟩ := receive_ok hr
    obtain ⟨-, -, _, _, -, rfl⟩ := settle_ok hs
    rfl
  ioLimit := by
    obtain ⟨stream, rfl⟩ := receive_ok hr
    obtain ⟨-, -, _, _, -, rfl⟩ := settle_ok hs
    rfl

theorem outlet_write {bytes : Bytes} {entry : Entry} {result : Except Error Unit}
    (h : write bytes entry c = (result, c')) (ho : c.stream.outlet.IsOpen) :
    c'.stream.outlet.IsOpen := by
  have kept := (Wire.Stream.write_of_isOpen ho bytes c.ioLimit).2
  rw [← stream_write bytes entry, h] at kept
  exact kept ▸ ho

/-- A chunk that goes out makes way for the next one. -/
theorem chunk_sent {u : Unit} (h : sendChunk t c = (.ok u, c')) :
    c.stream.Talked (Parse.framing c.parse) [] t.next c'.stream ∧
      (c.stream.outlet.IsOpen → c'.stream.outlet.IsOpen) ∧ ∃ stream, c' = { c with
        stream := stream
        pending := Transfer.ofChunks t.tag t.later }.record (.chunk t.tag t.next) := by
  have wrote := h
  unfold sendChunk at wrote
  have out := Wire.Stream.talked_of_write (Parse.framing c.parse) (write_all wrote)
  refine ⟨out, ?_, ?_⟩
  · intro ho
    have kept := outlet_write wrote
    exact kept ho
  · obtain ⟨stream, ⟨-, hs⟩ | ⟨_, _, -, hs⟩⟩ := sendChunk_cases t c
    · rw [hs] at h
      cases h
      exact ⟨stream, rfl⟩
    · rw [hs] at h
      cases h

theorem hears_answered {text : String} {u : Unit}
    (hr : receive limit c = (.ok (.continuation text), c₁)) (hp : c₁.pending = some t)
    (hs : sendChunk t c₁ = (.ok u, c')) : Hears c [.answered text t.tag t.next] c' := by
  have waits : c.pending = some t := waits_of_receive hr hp
  have heard := talked_receive hr
  have outlet := outlet_receive limit c
  rw [hr] at outlet
  obtain ⟨said, kept, _, hc'⟩ := chunk_sent hs
  obtain ⟨_, hc₁⟩ := receive_ok hr
  have parse : c₁.parse = c.parse := by rw [hc₁, record]
  rw [parse] at said
  have talked := heard.trans said
  refine ⟨?_, ?_, ?_, ⟨t.later.map fun bytes => (t.tag, bytes), ?_, .inl ?_⟩, ?_, ?_, ?_, ?_⟩
  · rw [List.flatMap_singleton]
    exact talked
  · rw [hc', hc₁]
    rfl
  · rw [hc', hc₁]
    rfl
  · rw [queue, waits]
    rfl
  · rw [hc']
    exact queue_ofChunks rfl
  · rw [hc', hc₁]
    rfl
  · intro ho
    exact kept (outlet ▸ ho)
  · rw [hc', hc₁]
    rfl
  · rw [hc', hc₁]
    rfl

/-! ### Reads that fail -/

/-- A read that fails. If it does no harm then nothing has happened, and if it was for want of time
then it does no harm exactly where no octet had come. -/
structure Stops (c : Connection) (e : Error) (c' : Connection) : Prop where
  harmless : c'.usable = true → Hears c [] c'
  timeout : c.stream.outlet.IsOpen → ∀ {limit}, e = .timeout limit →
    ∃ taken, c.content = taken ++ c'.content ∧ (c'.usable = true ↔ taken = [])

theorem stops_of_lost (hu : c'.usable = false) (he : ∀ limit, e ≠ .timeout limit) :
    Stops c e c' where
  harmless := by
    intro h
    rw [hu] at h
    cases h
  timeout := by
    intro _ limit h
    exact absurd h (he limit)

theorem isPartial_initial : Parse.initial.isPartial = false := rfl

theorem isPartial_of_mode_ne {s : Parse.State} (h : s.mode ≠ .start) : s.isPartial = true := by
  unfold Parse.State.isPartial
  split
  next hm => exact absurd hm h
  · rfl

/-- A read fails for good, or the time is up: before an octet came, or in the middle of a
response. -/
theorem failed_receive (h : receive limit c = (.error e, c')) :
    (c'.usable = false ∧ ∀ limit, e ≠ .timeout limit) ∨
      ∃ (stream : Wire.Stream) (taken : Bytes), stream.outlet = c.stream.outlet ∧
        stream.written = c.stream.written ∧ c.content = taken ++ stream.content ∧
        (taken = [] ∧ stream.timeless = c.stream.timeless ∧ c' = { c with stream := stream } ∨
          taken ≠ [] ∧ c' = { c with stream := stream }.poison) := by
  unfold receive at h
  dsimp only at h
  split at h
  · cases h
  · cases h
    exact .inl ⟨rfl, by simp⟩
  · cases h
    exact .inl ⟨rfl, by simp⟩
  · cases h
    exact .inl ⟨rfl, by simp⟩
  next s hr =>
    cases h
    refine .inr ⟨(c.stream.read (Parse.framing c.parse) limit).2, ?_⟩
    obtain ⟨taken, content, ⟨rfl, rfl, hi⟩ | ⟨bytes, more⟩⟩ :=
      Wire.Stream.expired_of_read Parse.seamless (Prod.ext hr rfl)
    · refine ⟨[], rfl, rfl, content, .inl ⟨rfl, hi, ?_⟩⟩
      exact if_neg (by simp [Parse.framing, isPartial_initial])
    · refine ⟨taken, rfl, rfl, content, .inr ⟨bytes, ?_⟩⟩
      exact if_pos (isPartial_of_mode_ne (Parse.mode_ne_start more (.inl bytes)))

theorem stops_of_receive (hu : c.usable = true) (h : receive limit c = (.error e, c')) :
    Stops c e c' := by
  rcases failed_receive h with ⟨lost, he⟩ | ⟨stream, taken, outlet, written, content, came⟩
  · exact stops_of_lost lost he
  rcases came with ⟨rfl, -, rfl⟩ | ⟨bytes, rfl⟩
  · refine ⟨fun _ => ?_, fun _ _ _ => ⟨[], content, by simp [hu]⟩⟩
    refine ⟨⟨?_, ?_⟩, rfl, rfl, ⟨c.queue, rfl, .inl rfl⟩, rfl, ?_, rfl, rfl⟩
    · rw [List.nil_append] at content
      exact content ▸ .nil _
    · rw [written]
      exact (List.append_nil _).symm
    · intro ho
      exact outlet ▸ ho
  · refine ⟨?_, fun _ _ _ => ⟨taken, content, by simp [poison, bytes]⟩⟩
    intro h
    cases h

/-! ### Whole reads -/

theorem hears_of_nextResponse (h : nextResponse limit c = (.ok r, c')) :
    ∃ answers, (∀ turn ∈ answers, turn.returned? = none) ∧
      Hears c (answers ++ [.returned r]) c' := by
  fun_induction nextResponse limit c with
  | case1 => cases h
  | case2 => cases h
  | case3 c c₁ text t hr hp c₂ hs _ _ ih =>
    obtain ⟨answers, silent, hears⟩ := ih h
    refine ⟨.answered text t.tag t.next :: answers, ?_, (hears_answered hr hp hs).trans hears⟩
    rintro turn (_ | ⟨_, hm⟩)
    · rfl
    · exact silent turn hm
  | case4 c c₁ r₁ hr _ _ =>
    obtain ⟨rfl, -⟩ := settle_ok h
    exact ⟨[], by simp, hears_returned hr h⟩

/-- Before a read fails, chunks may have been asked for. -/
theorem stops_of_nextResponse (hu : c.usable = true)
    (h : nextResponse limit c = (.error e, c')) :
    ∃ answers c₁, (∀ turn ∈ answers, turn.returned? = none) ∧ Hears c answers c₁ ∧
      Stops c₁ e c' := by
  fun_induction nextResponse limit c with
  | case1 c e₁ c₁ hr =>
    cases h
    exact ⟨[], c, by simp, .refl c, stops_of_receive hu hr⟩
  | case2 c c₁ text t hr hp e₁ c₂ hs =>
    -- An outlet that is open takes the chunk.
    refine ⟨[], c, by simp, .refl c, ?_, fun ho => ?_⟩
    · cases h
      obtain ⟨stream, rfl, -⟩ := write_error hs
      intro hu
      cases hu
    · have outlet := outlet_receive limit c
      rw [hr] at outlet
      obtain ⟨_, ⟨-, hw⟩ | ⟨_, _, hlabel, -⟩⟩ := sendChunk_cases t c₁
      · rw [hw] at hs
        cases hs
      · rw [writing, (Wire.Stream.write_of_isOpen (outlet ▸ ho) t.next c₁.ioLimit).1] at hlabel
        cases hlabel
  | case3 c c₁ text t hr hp c₂ hs _ _ ih =>
    have hears := hears_answered hr hp hs
    obtain ⟨answers, c₃, silent, more, stops⟩ := ih (hears.usable.trans hu) h
    refine ⟨.answered text t.tag t.next :: answers, c₃, ?_, hears.trans more, stops⟩
    rintro turn (_ | ⟨_, hm⟩)
    · rfl
    · exact silent turn hm
  | case4 c c₁ r₁ hr _ _ =>
    obtain ⟨rfl, tag, rfl⟩ := settle_error h
    exact ⟨[], c, by simp, .refl c, stops_of_lost rfl (by simp)⟩

/-! ### Calls one after the other -/

def readEach : List Duration → Connection → List (Except Error Response) × Connection
  | [], c => ([], c)
  | limit :: limits, c =>
    let (result, c) := readResponse limit c
    let (results, c) := readEach limits c
    (result :: results, c)

structure Reached (c : Connection) (turns : List Turn) (rest : Bytes) (c' : Connection) : Prop where
  heard : (Parse.framing c.parse).Reads c.content (turns.map Turn.response) rest
  answered : turns.filterMap Turn.chunk? <+: c.queue
  content : c'.usable = true → c'.content = rest
  outstanding : c'.usable = true →
    c'.outstanding = unsettledBy (turns.map Turn.response) c.outstanding
  capabilities : c'.usable = true →
    c'.capabilities = announcedBy (turns.map Turn.response) c.capabilities

variable {rest : Bytes} {limits : List Duration} {results : List (Except Error Response)}

theorem Hears.reached (h : Hears c turns c₁) (hc : c'.usable = true → Hears c₁ [] c') :
    Reached c turns c₁.content c' where
  heard := h.talked.heard
  answered := by
    obtain ⟨left, hq, -⟩ := h.queue
    rw [hq]
    exact List.prefix_append _ _
  content := by
    intro hu
    exact (hc hu).talked.heard.eq_of_nil
  outstanding := fun hu => (hc hu).outstanding.trans h.outstanding
  capabilities := fun hu => (hc hu).capabilities.trans h.capabilities

theorem Reached.behind (h : Hears c turns c₁) (hr : Reached c₁ later rest c') :
    Reached c (turns ++ later) rest c' where
  heard := by
    have heard := hr.heard
    rw [h.parse] at heard
    rw [List.map_append]
    exact h.talked.heard.append heard
  answered := by
    obtain ⟨left, hq, hl | hl⟩ := h.queue
    · rw [List.filterMap_append, hq, ← hl]
      exact (List.prefix_append_right_inj _).mpr hr.answered
    · have none := hr.answered
      rw [hl, List.prefix_nil] at none
      rw [List.filterMap_append, none, List.append_nil, hq]
      exact List.prefix_append _ _
  content := hr.content
  outstanding := by
    intro hu
    rw [hr.outstanding hu, h.outstanding, List.map_append]
    exact (List.foldl_append).symm
  capabilities := by
    intro hu
    rw [hr.capabilities hu, h.capabilities, List.map_append]
    exact (List.foldl_append).symm

theorem readEach_of_unusable (hu : c.usable = false) (limits : List Duration) :
    readEach limits c = (limits.map fun _ => .error (.misuse .unusable), c) := by
  induction limits with
  | nil => rfl
  | cons limit limits ih =>
    rw [readEach, readResponse, if_pos (by simp [hu])]
    dsimp only
    rw [ih]
    rfl

theorem readResponse_of_usable (hu : c.usable = true) (limit : Duration) :
    readResponse limit c = nextResponse limit c := by
  unfold readResponse
  rw [if_neg (by simp [hu])]

theorem returned_eq_nil (h : ∀ turn ∈ turns, turn.returned? = none) :
    turns.filterMap Turn.returned? = [] := List.filterMap_eq_nil_iff.mpr h

/-- What calls have come to: the responses that they returned, and what a limit that ran out in the
last of them has cost. -/
structure Outcome (turns : List Turn) (rest : Bytes) (results : List (Except Error Response))
    (c' : Connection) : Prop where
  returned : turns.filterMap Turn.returned? = results.filterMap Except.toOption
  timeout : ∀ {limit}, results.getLast? = some (.error (.timeout limit)) →
    ∃ taken, rest = taken ++ c'.content ∧ (c'.usable = true ↔ taken = [])

theorem outcome_readEach (ho : c.stream.outlet.IsOpen) (h : readEach limits c = (results, c')) :
    ∃ turns rest, Reached c turns rest c' ∧ Outcome turns rest results c' := by
  induction limits generalizing c results with
  | nil =>
    cases h
    exact ⟨[], c'.content, (Hears.refl c').reached fun _ => .refl c', rfl, by simp⟩
  | cons limit limits ih =>
    cases hu : c.usable with
    | false =>
      rw [readEach_of_unusable hu] at h
      cases h
      refine ⟨[], c'.content, (Hears.refl c').reached fun _ => .refl c', ?_, ?_⟩
      · simp [Except.toOption]
      · intro limit hl
        have last := List.mem_of_getLast? hl
        simp at last
    | true =>
      rw [readEach, readResponse_of_usable hu] at h
      dsimp only at h
      generalize hn : nextResponse limit c = first at h
      obtain ⟨result, c₁⟩ := first
      generalize he : readEach limits c₁ = others at h
      obtain ⟨others, c₂⟩ := others
      cases h
      cases result with
      | ok r =>
        obtain ⟨answers, silent, hears⟩ := hears_of_nextResponse hn
        obtain ⟨turns, rest, reached, outcome⟩ := ih (hears.outlet ho) he
        refine ⟨answers ++ [.returned r] ++ turns, rest, reached.behind hears, ?_, ?_⟩
        · rw [List.filterMap_append, List.filterMap_append, returned_eq_nil silent,
            outcome.returned]
          rfl
        · intro limit hl
          cases others with
          | nil => cases hl
          | cons second others =>
            rw [List.getLast?_cons_cons] at hl
            exact outcome.timeout hl
      | error e =>
        obtain ⟨answers, c₃, silent, hears, stops⟩ := stops_of_nextResponse hu hn
        cases hu₁ : c₁.usable with
        | true =>
          -- The call has changed nothing, so the others go on from where it began.
          have hears := hears.trans (stops.harmless hu₁)
          obtain ⟨turns, rest, reached, outcome⟩ := ih (hears.outlet ho) he
          refine ⟨answers ++ [] ++ turns, rest, reached.behind hears, ?_, ?_⟩
          · rw [List.append_nil, List.filterMap_append, returned_eq_nil silent, outcome.returned]
            rfl
          · intro limit hl
            cases limits with
            | nil =>
              cases he
              exact ⟨[], (reached.content hu₁).symm, by simp [hu₁]⟩
            | cons second limits =>
              simp only [readEach, Prod.mk.injEq] at he
              obtain ⟨rfl, rfl⟩ := he
              rw [List.getLast?_cons_cons] at hl
              exact outcome.timeout hl
        | false =>
          rw [readEach_of_unusable hu₁] at he
          cases he
          refine ⟨answers, c₃.content, hears.reached ?_, ?_, ?_⟩
          · intro hu₂
            rw [hu₁] at hu₂
            cases hu₂
          · rw [returned_eq_nil silent]
            simp [Except.toOption]
          · intro limit hl
            cases limits with
            | nil =>
              cases hl
              exact stops.timeout (hears.outlet ho) rfl
            | cons second limits =>
              rw [List.map_cons, List.getLast?_cons_cons] at hl
              have last := List.mem_of_getLast? hl
              simp at last

/-! ### Whole commands -/

theorem hears_of_collect {before : List Response} {done : Completion}
    (h : collect tag before c = (.ok done, c')) : ∃ turns, Hears c turns c' ∧ done.tag = tag ∧
      done.responses ++ [done.response] =
        before.reverse ++ turns.filterMap Turn.returned? := by
  fun_induction collect tag before c with
  | case1 => cases h
  | case2 => cases h
  | case3 before c status code text c₁ hr =>
    cases h
    obtain ⟨answers, silent, hears⟩ := hears_of_nextResponse (readResponse_ok hr).2
    refine ⟨_, hears, rfl, ?_⟩
    rw [List.filterMap_append, returned_eq_nil silent]
    rfl
  | case4 before c completed status code text c₁ hr _ _ ih =>
    obtain ⟨answers, silent, hears⟩ := hears_of_nextResponse (readResponse_ok hr).2
    obtain ⟨turns, later, ht, hrs⟩ := ih h
    refine ⟨_, hears.trans later, ht, ?_⟩
    rw [hrs, List.filterMap_append, List.filterMap_append, returned_eq_nil silent]
    simp [Turn.returned?]
  | case5 before c u c₁ hr _ ih =>
    obtain ⟨answers, silent, hears⟩ := hears_of_nextResponse (readResponse_ok hr).2
    obtain ⟨turns, later, ht, hrs⟩ := ih h
    refine ⟨_, hears.trans later, ht, ?_⟩
    rw [hrs, List.filterMap_append, List.filterMap_append, returned_eq_nil silent]
    simp [Turn.returned?]

/-- Whatever limits are set, the responses that are dealt with are the first ones of all that the
server sends. A whole command is given all that comes up to its completion. -/
theorem nothing_lost (ho : c.stream.outlet.IsOpen) :
    (∀ limits, ∃ turns rest,
      Reached c turns rest (readEach limits c).2 ∧
      Outcome turns rest (readEach limits c).1 (readEach limits c).2 ∧
      turns.map Turn.response <+:
        (Wire.Inbox.readAll (Parse.framing c.parse) (.ofFeed [.data c.content])).1) ∧
    ∀ {tag done c'}, readUntil tag c = (.ok done, c') → ∃ turns, Hears c turns c' ∧
      done.tag = tag ∧ turns.filterMap Turn.returned? = done.responses ++ [done.response] := by
  constructor
  · intro limits
    obtain ⟨turns, rest, reached, outcome⟩ := outcome_readEach ho (Prod.ext rfl rfl : _ = (_, _))
    exact ⟨turns, rest, reached, outcome, reached.heard.prefix_readAll Parse.seamless⟩
  · intro tag done c' h
    obtain ⟨turns, hears, ht, hrs⟩ := hears_of_collect (readUntil_ok h).2
    exact ⟨turns, hears, ht, hrs.symm⟩

/-- Of two reads the second runs out of time where no octet of a further response has come. -/
theorem nothing_lost_in_pause :
    let c := fresh (.start [.data (Bytes.ofText "* 1 EXISTS\r\n"), .pause (Duration.seconds 6),
      .data (Bytes.ofText "* 2 EXISTS\r\n")] .unlimited) { host := "mail" }
    let limits := [Duration.seconds 5, Duration.seconds 5]
    ((readEach limits c).1.map fun result => result.toOption.isSome) = [true, false] ∧
      (readEach limits c).2.usable = true ∧ ∃ turns rest,
        Reached c turns rest (readEach limits c).2 ∧
        Outcome turns rest (readEach limits c).1 (readEach limits c).2 ∧
        turns.map Turn.response <+:
          (Wire.Inbox.readAll (Parse.framing c.parse) (.ofFeed [.data c.content])).1 := by
  intro c limits
  have ho : c.stream.outlet.IsOpen := ⟨rfl, nofun⟩
  exact ⟨by decide +kernel, by decide +kernel, (nothing_lost ho).1 limits⟩

end Connection
end MailClient.Imap
