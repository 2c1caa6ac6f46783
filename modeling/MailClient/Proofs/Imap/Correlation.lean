import MailClient.Proofs.Imap.Operations

/-! How completions are matched with commands. The tags on a connection, the literal that waits and
what has gone over the wire say the same at every point of a run. -/
namespace MailClient.Imap

namespace Incident

def begins (tag : Tag) : Incident → Bool
  | .wrote (.command begun _) _ => begun == tag
  | _ => false

end Incident

/-- A command has begun under the tag and no completion has come since. -/
def Awaited (tag : Tag) (incidents : List Incident) : Prop :=
  ∃ before command bytes after, incidents = before ++ .wrote (.command tag command) bytes :: after ∧
    ∀ i ∈ after, i.completes tag = false

variable {tag : Tag} {i : Incident} {incidents later : List Incident}

theorem Incident.begins_iff : i.begins tag = true ↔
    ∃ command bytes, i = .wrote (.command tag command) bytes := by
  constructor
  · intro h
    unfold begins at h
    split at h
    next begun command bytes =>
      obtain rfl : begun = tag := by simpa using h
      exact ⟨command, bytes, rfl⟩
    · cases h
  · rintro ⟨command, bytes, rfl⟩
    simp [begins]

theorem Incident.begins_of_unwritten (h : i.written? = none) : i.begins tag = false := by
  cases i with
  | wrote => cases h
  | _ => rfl

theorem awaited_nil : ¬Awaited tag [] := by
  rintro ⟨before, command, bytes, after, h, -⟩
  simp at h

theorem awaited_cons : Awaited tag (i :: incidents) ↔
    Awaited tag incidents ∨ i.begins tag = true ∧ ∀ j ∈ incidents, j.completes tag = false := by
  constructor
  · rintro ⟨before, command, bytes, after, h, hafter⟩
    cases before with
    | nil =>
      cases h
      exact .inr ⟨Incident.begins_iff.mpr ⟨command, bytes, rfl⟩, hafter⟩
    | cons j before =>
      cases h
      exact .inl ⟨before, command, bytes, after, rfl, hafter⟩
  · rintro (⟨before, command, bytes, after, rfl, hafter⟩ | ⟨hi, hafter⟩)
    · exact ⟨i :: before, command, bytes, after, rfl, hafter⟩
    · obtain ⟨command, bytes, rfl⟩ := Incident.begins_iff.mp hi
      exact ⟨[], command, bytes, incidents, rfl, hafter⟩

theorem awaited_append : Awaited tag (incidents ++ later) ↔
    Awaited tag later ∨ Awaited tag incidents ∧ ∀ j ∈ later, j.completes tag = false := by
  induction incidents with
  | nil => simp [awaited_nil]
  | cons i rest ih =>
    rw [List.cons_append, awaited_cons, ih, awaited_cons]
    simp only [List.mem_append]
    constructor
    · rintro ((h | ⟨h, hl⟩) | ⟨hi, h⟩)
      · exact .inl h
      · exact .inr ⟨.inl h, hl⟩
      · exact .inr ⟨.inr ⟨hi, fun j hj => h j (.inl hj)⟩, fun j hj => h j (.inr hj)⟩
    · rintro (h | ⟨h | ⟨hi, hr⟩, hl⟩)
      · exact .inl (.inl h)
      · exact .inl (.inr ⟨h, hl⟩)
      · exact .inr ⟨hi, fun j hj => hj.elim (hr j) (hl j)⟩

namespace Connection

variable {free : Prop} {c c' : Connection} {t : Transfer} {r r' : Response} {entry : Entry}
  {limit : Duration} {e : Error}

theorem begins_writing (h : entry.isCommand = false) (bytes : Bytes) (c : Connection) :
    (c.writing entry bytes).begins tag = false := by
  rw [Bool.eq_false_iff]
  intro hb
  obtain ⟨command, sent, hlabel⟩ := Incident.begins_iff.mp hb
  have written := written_writing entry bytes c
  rw [hlabel] at written
  cases written
  cases h

theorem completes_writing (entry : Entry) (bytes : Bytes) (c : Connection) :
    (c.writing entry bytes).completes tag = false := by
  obtain ⟨-, -, ⟨hlabel, -⟩ | ⟨_, _, hlabel, -⟩⟩ := writing_cases entry bytes c
  · rw [hlabel]
    rfl
  · rw [hlabel]
    rfl

theorem completes_hearing (h : receive limit c = (.error e, c')) :
    (c.hearing limit).completes tag = false := by
  obtain ⟨-, -, ⟨hlabel, -⟩ | ⟨hlabel, -⟩⟩ := hearing_error h
  · rw [hlabel]
    rfl
  · rw [hlabel]
    rfl

theorem completes_heard : (Incident.heard r).completes tag = (r.tag? == some tag) := by
  cases r with
  | tagged completed status code text =>
    simp only [Incident.completes, Response.tag?]
    exact (Option.some_beq_some).symm
  | _ => rfl

theorem not_awaited (h : ∀ i ∈ incidents, i.begins tag = false) : ¬Awaited tag incidents := by
  rintro ⟨before, command, bytes, after, rfl, -⟩
  have begun := h (.wrote (.command tag command) bytes) (by simp)
  simp [Incident.begins] at begun

/-- A step keeps the tags in line with what it writes and hears. -/
theorem mem_outstanding_step (h : Step free c incidents c') : tag ∈ c'.outstanding ↔
    Awaited tag incidents ∨ tag ∈ c.outstanding ∧ ∀ i ∈ incidents, i.completes tag = false := by
  -- Most steps have nothing to do with tags.
  have kept {c' : Connection} {incidents : List Incident} (ho : c'.outstanding = c.outstanding)
      (hb : ∀ i ∈ incidents, i.begins tag = false) (hi : ∀ i ∈ incidents, i.completes tag = false) :
      tag ∈ c'.outstanding ↔ Awaited tag incidents ∨
        tag ∈ c.outstanding ∧ ∀ i ∈ incidents, i.completes tag = false := by
    rw [ho]
    exact ⟨fun h => .inr ⟨h, hi⟩, fun h => h.elim (fun h => (not_awaited hb h).elim) And.left⟩
  cases h with
  | @command opened command hu ht hp =>
    obtain ⟨stream, -, ⟨hlabel, hs⟩ | ⟨_, _, hlabel, hs⟩⟩ := @send_cases c opened command hu ht hp
    · rw [hs, hlabel, awaited_cons]
      simp only [record, awaited_nil, Incident.begins, Incident.completes, List.mem_append,
        List.mem_singleton, forall_eq, beq_iff_eq, false_or, and_true]
      rw [or_comm, eq_comm]
      simp
    · rw [hs, hlabel]
      exact kept rfl (by simp [Incident.begins]) (by simp [Incident.completes])
  | @line text hu =>
    rw [sendLine_of_usable hu]
    refine kept (write_books _ _ c).1 ?_ ?_
    · simpa using begins_writing rfl _ c
    · simpa using completes_writing _ _ c
  | unheard hu hr =>
    refine kept (receive_books hr).1 ?_ ?_
    · simpa using Incident.begins_of_unwritten (written_hearing _ c)
    · simpa using completes_hearing hr
  | @chunk limit text c₁ t hu hr hp =>
    refine kept ((sendChunk_books t c₁).1.trans (receive_books hr).1) ?_ ?_
    · simpa [Incident.begins] using begins_writing rfl _ c₁
    · simpa [Incident.completes] using completes_writing _ _ c₁
  | response hu hr hp hs =>
    obtain ⟨stream₁, rfl⟩ := receive_ok hr
    rw [(settle_books hs).1, mem_unsettled]
    simp [record, awaited_cons, awaited_nil, Incident.begins, completes_heard]
  | @stray _ r _ _ _ hu hr hs =>
    obtain ⟨stream₁, rfl⟩ := receive_ok hr
    obtain ⟨rfl, stranger, htag, hout, rfl⟩ := settle_stray hs
    by_cases hst : stranger = tag
    · subst hst
      have absent : stranger ∉ c.outstanding := hout
      refine ⟨fun h => (absent h).elim, ?_⟩
      rintro (h | ⟨h, -⟩)
      · exact (not_awaited (by simp [Incident.begins]) h).elim
      · exact h
    · have other : (Incident.heard r).completes tag = false := by
        rw [completes_heard, htag]
        simpa using hst
      refine kept rfl (by simp [Incident.begins]) ?_
      exact List.forall_mem_cons.mpr ⟨other, by simp [Incident.completes]⟩
  | tag | pause | greeted | secured => exact kept rfl (by simp) (by simp)
  | misfit | close => exact kept rfl (by simp [Incident.begins]) (by simp [Incident.completes])

theorem mem_outstanding_course (h : Course free c incidents c') : tag ∈ c'.outstanding ↔
    Awaited tag incidents ∨ tag ∈ c.outstanding ∧ ∀ i ∈ incidents, i.completes tag = false := by
  induction h with
  | refl => simp [awaited_nil]
  | step hs _ ih =>
    rw [ih, mem_outstanding_step hs, awaited_append]
    rw [List.forall_mem_append, or_and_right, and_assoc, or_assoc]

/-! ### What a run keeps -/

structure Tidy (c : Connection) : Prop where
  nodup : c.outstanding.Nodup
  queued : ∀ t ∈ c.pending, t.tag ∈ c.outstanding

theorem tidy_fresh (stream : Wire.Stream) (settings : Settings) : Tidy (fresh stream settings) :=
  ⟨List.nodup_nil, fun t h => by cases h⟩

theorem Tidy.of_books (h : Tidy c)
    (hb : c'.outstanding = c.outstanding ∧ c'.pending = c.pending) : Tidy c' := by
  refine ⟨?_, fun t ht => ?_⟩
  · rw [hb.1]
    exact h.nodup
  · rw [hb.1]
    exact h.queued t (hb.2 ▸ ht)

/-- A queue that gives away a chunk still belongs to the same command. -/
theorem Tidy.shorten (h : Tidy c) (hp : c.pending = some t)
    (ho : c'.outstanding = c.outstanding) (hc : c'.pending = Transfer.ofChunks t.tag t.later) :
    Tidy c' := by
  refine ⟨by rw [ho]; exact h.nodup, fun t' ht' => ?_⟩
  rw [hc, Transfer.mem_ofChunks] at ht'
  rw [ho, ht'.1]
  exact h.queued t hp

theorem Tidy.settle (h : Tidy c) (hs : settle r c = (.ok r', c')) : Tidy c' := by
  obtain ⟨ho, hp⟩ := settle_books hs
  refine ⟨?_, fun t ht => ?_⟩
  · rw [ho]
    unfold Response.unsettled
    cases r.tag? with
    | none => exact h.nodup
    | some tag => exact h.nodup.filter _
  · rw [hp] at ht
    obtain ⟨hq, hne⟩ := Option.mem_filter_iff.mp ht
    rw [ho, mem_unsettled]
    exact ⟨h.queued t hq, by simpa using hne⟩

theorem tidy_step (h : Step free c incidents c') (hc : Tidy c) : Tidy c' := by
  cases h with
  | @command opened command hu ht hp =>
    obtain ⟨stream, -, ⟨-, hs⟩ | ⟨_, _, -, hs⟩⟩ := @send_cases c opened command hu ht hp
    · rw [hs]
      refine ⟨?_, fun t hq => ?_⟩
      · have apart : ∀ t ∈ c.outstanding, ¬t = opened := fun t hm he => ht (he ▸ hm)
        simpa [record, List.nodup_append, hc.nodup] using apart
      · obtain ⟨htag, -⟩ := Transfer.mem_ofChunks.mp hq
        simp [record, htag]
    · rw [hs]
      exact ⟨hc.nodup, hc.queued⟩
  | line hu =>
    rw [sendLine_of_usable hu]
    exact hc.of_books (write_books _ _ c)
  | unheard hu hr => exact hc.of_books (receive_books hr)
  | @chunk limit text c₁ t hu hr hp =>
    obtain ⟨ho, hpending⟩ := sendChunk_books t c₁
    exact (hc.of_books (receive_books hr)).shorten hp ho hpending
  | response hu hr hp hs => exact (hc.of_books (receive_books hr)).settle hs
  | stray hu hr hs =>
    obtain ⟨rfl, -⟩ := settle_stray hs
    obtain ⟨ho, hpending⟩ := receive_books hr
    exact hc.of_books ⟨ho, hpending⟩
  | _ => exact ⟨hc.nodup, hc.queued⟩

theorem tidy_course (h : Course free c incidents c') (hc : Tidy c) : Tidy c' := by
  induction h with
  | refl => exact hc
  | step hs _ ih => exact ih (tidy_step hs hc)

/-! ### Single steps of a run -/

variable {front back : List Incident} {status : Status} {code : Option (List Token)} {text : String}

/-- A command goes out in a step of its own, under a tag that is not outstanding. -/
theorem step_of_opens (h : Step free c (front ++ i :: back) c') (hi : i.opens tag = true) :
    front = [] ∧ back = [] ∧ c.usable = true ∧ tag ∉ c.outstanding ∧ c.pending = none ∧
      ∃ command, i = c.writing (.command tag command) (c.encoding tag command).first ∧
        c' = (send tag command c).2 := by
  generalize hl : front ++ i :: back = incidents at h
  have hm : i ∈ incidents := by simp [← hl]
  have excluded (ho : ∀ j ∈ incidents, j.opens tag = false) : False := by
    rw [ho i hm] at hi
    cases hi
  cases h with
  | @command opened command hu ht hp =>
    obtain ⟨rfl, rfl, rfl⟩ := append_cons_eq_singleton hl
    obtain rfl : opened = tag := by simpa [Incident.opens, written_writing] using hi
    exact ⟨rfl, rfl, hu, ht, hp, command, rfl, rfl⟩
  | line => exact (excluded (by simp [Incident.opens, written_writing])).elim
  | unheard => exact (excluded (by simp [Incident.opens, written_hearing])).elim
  | chunk => exact (excluded (by simp [Incident.opens, written_writing])).elim
  | response | stray => exact (excluded (by simp [Incident.opens])).elim
  | _ => exact (excluded (by simp [Incident.opens])).elim

/-- What a completion does: it is accepted if its tag is outstanding, and takes the tag away with
the literal that belongs to it; otherwise it is a misfit. -/
inductive Settles (tag : Tag) (c : Connection) : List Incident → Connection → Prop where
  | accepted {c' : Connection} : tag ∈ c.outstanding →
      (∀ t, t ∈ c'.outstanding ↔ t ∈ c.outstanding ∧ t ≠ tag) →
      c'.pending = c.pending.filter (fun t => t.tag != tag) → Settles tag c [] c'
  | rejected {c' : Connection} : tag ∉ c.outstanding → c'.outstanding = c.outstanding →
      c'.pending = c.pending → c'.usable = false → Settles tag c [.misfit (.unknownTag tag)] c'

theorem step_of_completion
    (h : Step free c (front ++ .heard (.tagged tag status code text) :: back) c') :
    front = [] ∧ Settles tag c back c' := by
  generalize hl : front ++ .heard (.tagged tag status code text) :: back = incidents at h
  have hm : .heard (.tagged tag status code text) ∈ incidents := by simp [← hl]
  have written {entry bytes} {c : Connection}
      (he : Incident.heard (.tagged tag status code text) = c.writing entry bytes) : False := by
    have label := written_writing entry bytes c
    rw [← he] at label
    cases label
  cases h with
  | tag | pause | greeted | secured => simp at hm
  | command => exact (written (List.mem_singleton.mp hm)).elim
  | line => exact (written (List.mem_singleton.mp hm)).elim
  | unheard hu hr =>
    have label := List.mem_singleton.mp hm
    obtain ⟨_, -, ⟨hs, -⟩ | ⟨hs, -⟩⟩ := hearing_error hr
    · rw [hs] at label
      cases label
    · rw [hs] at label
      cases label
  | chunk =>
    rcases List.mem_cons.mp hm with he | he
    · cases he
    · exact (written (List.mem_singleton.mp he)).elim
  | response hu hr hp hs =>
    obtain ⟨rfl, he, rfl⟩ := append_cons_eq_singleton hl
    cases he
    obtain ⟨stream, rfl⟩ := receive_ok hr
    obtain ⟨-, known, -⟩ := settle_ok hs
    obtain ⟨ho, hpending⟩ := settle_books hs
    refine ⟨rfl, .accepted (known tag rfl) (fun t => ?_) (hpending.trans ?_)⟩
    · rw [ho, mem_unsettled]
      simp [Response.tag?, record, eq_comm]
    · refine congrArg (Option.filter · c.pending) (funext fun t => ?_)
      simp [Response.tag?, bne, Bool.beq_comm]
  | @stray _ r _ v _ hu hr hs =>
    rcases append_cons_eq_pair hl with ⟨rfl, he, rfl⟩ | ⟨-, he, -⟩
    · cases he
      obtain ⟨stream, rfl⟩ := receive_ok hr
      obtain ⟨rfl, stranger, htag, hout, rfl⟩ := settle_stray hs
      cases htag
      exact ⟨rfl, .rejected hout rfl rfl rfl⟩
    · cases he
  | misfit | close => simp at hm

end Connection

open Connection

/-- The tags of a connection, its queue of chunks and what has gone over the wire agree. -/
structure Correlated (first : Connection) (incidents : List Incident) (c : Connection) : Prop where
  /-- The incidents are all that was written, and all that was read to its end. -/
  emitted : c.emitted = first.emitted ++ incidents.flatMap Incident.octets
  transcript : c.transcript = first.transcript ++ incidents.filterMap Incident.recorded?
  outstanding (tag : Tag) : tag ∈ c.outstanding ↔ Awaited tag incidents
  once : c.outstanding.Nodup
  queued : ∀ t ∈ c.pending, t.tag ∈ c.outstanding ∧ t.chunks ≠ []
  /-- No command is written under a tag that is outstanding at that moment. -/
  unused : ∀ before i after, incidents = before ++ i :: after → ∀ tag, i.opens tag = true →
    ¬Awaited tag before
  completed : ∀ before tag status code text after,
    incidents = before ++ .heard (.tagged tag status code text) :: after →
    ∃ c₁ back c₂ rest, after = back ++ rest ∧ Course True first before c₁ ∧
      Settles tag c₁ back c₂ ∧ Course True c₂ rest c
  /-- A command that may not go out now changes nothing at all. -/
  refused (tag : Tag) (command : Command) : tag ∈ c.outstanding ∨ c.pending.isSome = true →
    ∃ e, send tag command c = (.error e, c)

theorem refused_send {c : Connection} (tag : Tag) (command : Command)
    (h : tag ∈ c.outstanding ∨ c.pending.isSome = true) :
    ∃ e, send tag command c = (.error e, c) := by
  unfold send
  split
  · exact ⟨_, rfl⟩
  · split
    · exact ⟨_, rfl⟩
    next ht =>
      have hp := h.resolve_left (by simpa using ht)
      split
      · exact ⟨_, rfl⟩
      next hn =>
        rw [hn] at hp
        cases hp

theorem correlated_of_course {stream : Wire.Stream} {settings : Settings} {c : Connection}
    (h : Course True (fresh stream settings) incidents c) :
    Correlated (fresh stream settings) incidents c := by
  have matched {incidents c} (h : Course True (fresh stream settings) incidents c) (tag : Tag) :
      tag ∈ c.outstanding ↔ Awaited tag incidents := by
    rw [mem_outstanding_course h]
    simp [fresh]
  have tidy := tidy_course h (tidy_fresh stream settings)
  refine ⟨emitted_course h, transcript_course h, matched h, tidy.nodup,
    fun t ht => ⟨tidy.queued t ht, by simp [Transfer.chunks]⟩, ?_, ?_, refused_send⟩
  · rintro before i after rfl tag hi
    obtain ⟨past, front, c₁, back, c₂, future, rfl, rfl, hpast, hstep, -⟩ := h.split
    obtain ⟨rfl, -, -, ht, -⟩ := step_of_opens hstep hi
    rw [List.append_nil, ← matched hpast]
    exact ht
  · rintro before tag status code text after rfl
    obtain ⟨past, front, c₁, back, c₂, future, rfl, rfl, hpast, hstep, hfuture⟩ := h.split
    obtain ⟨rfl, settles⟩ := step_of_completion hstep
    exact ⟨c₁, back, c₂, future, rfl, by simpa using hpast, settles, hfuture⟩

/-- From the greeting on, at every point of every run, within operations as between them. -/
theorem correlated_run {stream : Wire.Stream} {settings : Settings} {c : Connection}
    (h : start stream settings = (.ok (), c)) (ops : List Operation) :
    Leads True (fresh stream settings) (Operation.run ops c) ∧
    ∀ before c₁ after, Course True (fresh stream settings) before c₁ →
      Course True c₁ after (Operation.run ops c) →
      Correlated (fresh stream settings) before c₁ := by
  refine ⟨(leads_start h).trans (Operation.leads_run ops c fun _ => trivial), ?_⟩
  intro before c₁ after hbefore _
  exact correlated_of_course hbefore

/-- Two commands are under way, and the second is completed first. -/
theorem correlated_pipelined :
    let stream := Wire.Stream.start
      [.data (Bytes.ofText "* OK ready\r\na2 OK done\r\n")] .unlimited
    let settings : Settings := { host := "mail" }
    let ops : List Operation :=
      [.send ⟨"a1"⟩ (.named "NOOP"), .send ⟨"a2"⟩ (.named "NOOP"), .readResponse 1]
    ∃ c incidents, start stream settings = (.ok (), c) ∧
      Course True (fresh stream settings) incidents (Operation.run ops c) ∧
      Correlated (fresh stream settings) incidents (Operation.run ops c) ∧
      Awaited ⟨"a1"⟩ incidents ∧ ¬Awaited ⟨"a2"⟩ incidents := by
  intro stream settings ops
  have left : ((start stream settings).1.toOption.map fun _ =>
      (Operation.run ops (start stream settings).2).outstanding) = some [⟨"a1"⟩] := by
    decide +kernel
  rcases hs : start stream settings with ⟨e | u, c⟩
  · rw [hs] at left
    cases left
  · rw [hs] at left
    have outstanding : (Operation.run ops c).outstanding = [⟨"a1"⟩] := Option.some.inj left
    obtain ⟨⟨incidents, course⟩, correlated⟩ := correlated_run hs ops
    have agree := correlated incidents _ [] course (.refl _)
    refine ⟨c, incidents, rfl, course, agree, ?_, ?_⟩
    · rw [← agree.outstanding, outstanding]
      simp
    · rw [← agree.outstanding, outstanding]
      simp

end MailClient.Imap
