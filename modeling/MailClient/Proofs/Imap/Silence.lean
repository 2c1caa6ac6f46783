import MailClient.Proofs.Imap.Operations

/-! An upset silences a connection. Whatever is asked of it from then on, nothing is read, nothing
is written, and every request is refused, so that nothing ever follows a command of which only a
part went out. -/
namespace MailClient.Imap

namespace Connection

variable {c : Connection}

structure Refuses (c : Connection) : Prop where
  usable : c.usable = false
  send (tag command) : send tag command c = (.error (.misuse .unusable), c)
  sendLine (line) : sendLine line c = (.error (.misuse .unusable), c)
  readResponse (limit) : readResponse limit c = (.error (.misuse .unusable), c)
  readUntil (tag) : ∃ why, readUntil tag c = (.error (.misuse why), c)
  /-- Only the tag is used up, which has not gone out. -/
  execute (command) : execute command c = (.error (.misuse .unusable), c.nextTag.2)

theorem collect_of_unusable (hu : c.usable = false) (tag : Tag) (before : List Response) :
    collect tag before c = (.error (.misuse .unusable), c) := by
  have refused : readResponse c.ioLimit c = (.error (.misuse .unusable), c) := by
    simp [readResponse, hu]
  unfold collect
  split
  next h =>
    rw [refused] at h
    cases h
    rfl
  all_goals
    rename_i h
    rw [refused] at h
    cases h

theorem refuses_of_unusable (hu : c.usable = false) : Refuses c where
  usable := hu
  send tag command := by simp [send, hu]
  sendLine line := by simp [sendLine, hu]
  readResponse limit := by simp [readResponse, hu]
  readUntil tag := by
    unfold readUntil
    split
    · exact ⟨_, collect_of_unusable hu tag []⟩
    · exact ⟨_, rfl⟩
  execute command := by
    have refused : send c.nextTag.1 command c.nextTag.2 =
        (.error (.misuse .unusable), c.nextTag.2) := by
      unfold send
      rw [if_pos]
      simpa [nextTag] using hu
    unfold execute
    dsimp only
    rw [refused]

/-! ### Upsets -/

/-- The failures that put a connection out of use, as a caller sees them, and closing it. -/
inductive Upset (c : Connection) : Connection → Prop where
  | read {limit e c'} : readResponse limit c = (.error e, c') → e ≠ .timeout limit → Upset c c'
  | interrupted {limit e} : c.hearing limit = .lost e → Upset c (readResponse limit c).2
  | send {tag command e c'} : send tag command c = (.error e, c') → tag ∉ c.outstanding →
      c.pending = none → Upset c c'
  | sendLine {line e c'} : sendLine line c = (.error e, c') → Upset c c'
  | readUntil {tag v c'} : readUntil tag c = (.error (.violation v), c') → Upset c c'
  | close : Upset c c.close

variable {c' : Connection} {limit : Duration} {e : Error} {tag : Tag}

theorem usable_of_read (h : readResponse limit c = (.error e, c')) :
    c'.usable = false ∨ e = .timeout limit := by
  unfold readResponse at h
  split at h
  next hu =>
    cases h
    exact .inl (by simpa using hu)
  · rcases nextResponse_error h with hn | ⟨rfl, -⟩
    · exact .inl hn
    · exact .inr rfl

/-- A response that is cut off is the last that is read. -/
theorem usable_of_interrupted (h : c.hearing limit = .lost e) :
    (readResponse limit c).2.usable = false := by
  unfold readResponse
  split
  next hu => simpa using hu
  · unfold nextResponse
    split
    next hr =>
      obtain ⟨stream, -, ⟨-, rfl⟩ | ⟨hs, -⟩⟩ := hearing_error hr
      · rfl
      · rw [hs] at h
        cases h
    next hr =>
      rw [hearing_ok hr] at h
      cases h

theorem usable_of_collect {before : List Response} {v : Violation}
    (h : collect tag before c = (.error (.violation v), c')) : c'.usable = false := by
  fun_induction collect tag before c with
  | case1 _ _ _ _ hr =>
    cases h
    rcases usable_of_read hr with hu | he
    · exact hu
    · cases he
  | case2 =>
    cases h
    rfl
  | case3 => cases h
  | case4 _ _ _ _ _ _ _ _ _ _ ih => exact ih h
  | case5 _ _ _ _ _ _ ih => exact ih h

theorem usable_of_upset (h : Upset c c') : c'.usable = false := by
  cases h with
  | read h hne => exact (usable_of_read h).resolve_right hne
  | interrupted h => exact usable_of_interrupted h
  | @send tag command _ _ h ht hp =>
    by_cases hu : c.usable = true
    · have cases := @send_cases c tag command hu ht hp
      obtain ⟨_, -, ⟨-, hs⟩ | ⟨_, _, -, hs⟩⟩ := cases
      · rw [hs] at h
        cases h
      · rw [hs] at h
        cases h
        rfl
    · rw [(refuses_of_unusable (by simpa using hu)).send] at h
      cases h
      simpa using hu
  | sendLine h =>
    unfold Connection.sendLine at h
    split at h
    next hu =>
      cases h
      simpa using hu
    · obtain ⟨_, rfl, -⟩ := write_error h
      rfl
  | readUntil h =>
    unfold Connection.readUntil at h
    split at h
    · exact usable_of_collect h
    · cases h
  | close => rfl

end Connection

open Connection

/-- After a response that cannot be read to its end, a write that fails or is cut short, a response
that has no place, or a close, a connection is out of use for the rest of the run: each request is
refused, no octet is taken from the stream, and none is given to it. The first part is about upsets
between the operations of a run, the second about upsets within them. -/
theorem silent_after_upset (ops : List Operation) (c : Connection) :
    (∀ c₁, Upset (Operation.run ops c) c₁ → ∀ later, Refuses (Operation.run later c₁) ∧
      (Operation.run later c₁).stream.inbox = c₁.stream.inbox ∧
      (Operation.run later c₁).stream.sent = c₁.stream.sent) ∧
    Leads True c (Operation.run ops c) ∧
    ∀ incidents, Course True c incidents (Operation.run ops c) →
      (Operation.run ops c).usable = (c.usable && incidents.all fun i => !i.isUpset) ∧
      ∀ before u after, incidents = before ++ u :: after → u.isUpset = true →
        Refuses (Operation.run ops c) ∧ (∀ i ∈ after, i.isTraffic = false) ∧
        (Operation.run ops c).emitted =
          c.emitted ++ before.flatMap Incident.octets ++ u.octets ∧
        ∃ c₁, Course True c (before ++ [u]) c₁ ∧ c₁.usable = false ∧
          (Operation.run ops c).stream.inbox = c₁.stream.inbox ∧
          (Operation.run ops c).stream.sent = c₁.stream.sent := by
  refine ⟨?_, Operation.leads_run ops c fun _ => trivial, ?_⟩
  · intro c₁ hupset later
    obtain ⟨incidents, course⟩ : Leads True c₁ (Operation.run later c₁) :=
      Operation.leads_run later c₁ fun _ => trivial
    have unusable := usable_of_upset hupset
    obtain ⟨-, hinbox, hsent⟩ := silent_course course unusable
    refine ⟨refuses_of_unusable ?_, hinbox, hsent⟩
    rw [usable_course course, unusable, Bool.false_and]
  intro incidents course
  refine ⟨usable_course course, ?_⟩
  rintro before u after rfl hu
  obtain ⟨c₁, hc₁, unusable, hafter⟩ := course_upset course hu
  obtain ⟨quiet, hinbox, hsent⟩ := silent_course hafter unusable
  have usable : (Operation.run ops c).usable = false := by
    rw [usable_course hafter, unusable, Bool.false_and]
  refine ⟨refuses_of_unusable usable, quiet, ?_, c₁, hc₁, unusable, hinbox, hsent⟩
  rw [emitted_eq_of_sent hsent, emitted_course hc₁]
  simp

/-- A literal of which only three octets come. A command after it is refused, and nothing has gone
out. -/
theorem silent_after_truncation :
    let stream := Wire.Stream.start
      [.data (Bytes.ofText "* OK ready\r\n* 1 FETCH (BODY[] \x7b10\x7d\r\nabc")] .unlimited
    let c := (start stream { host := "mail" }).2
    let later : List Operation := [.execute (.named "NOOP")]
    let ops := .readResponse 1 :: later
    (∃ c₁, Upset c c₁ ∧ Refuses (Operation.run later c₁)) ∧
    ∃ before u after, Course True c (before ++ u :: after) (Operation.run ops c) ∧
      u.isUpset = true ∧ Refuses (Operation.run ops c) ∧ (Operation.run ops c).emitted = [] := by
  intro stream c later ops
  have hc : c.usable = true := by decide +kernel
  have unusable : (Operation.run ops c).usable = false := by decide +kernel
  have nothing : (Operation.run ops c).emitted = [] := by decide +kernel
  refine ⟨?_, ?_⟩
  · have failed : (match (readResponse 1 c).1 with
        | .error e => some e
        | .ok _ => none) = some (.malformed 24 (.endInLiteral 10)) := by decide +kernel
    rcases hr : readResponse 1 c with ⟨e | r, c₁⟩
    · rw [hr] at failed
      cases failed
      have upset : Upset c c₁ := .read hr (by simp)
      exact ⟨c₁, upset, ((silent_after_upset [] c).1 c₁ upset later).1⟩
    · rw [hr] at failed
      cases failed
  · obtain ⟨-, ⟨incidents, course⟩, silent⟩ := silent_after_upset ops c
    obtain ⟨husable, hsilent⟩ := silent incidents course
    have upset : (incidents.all fun i => !i.isUpset) = false := by
      rw [unusable, hc, Bool.true_and] at husable
      exact husable.symm
    rw [List.all_eq_false] at upset
    obtain ⟨u, hm, hu⟩ := upset
    obtain ⟨before, after, rfl⟩ := List.append_of_mem hm
    have hu : u.isUpset = true := by simpa using hu
    obtain ⟨refuses, -, -⟩ := hsilent before u after rfl hu
    exact ⟨before, u, after, course, hu, refuses, nothing⟩

end MailClient.Imap
