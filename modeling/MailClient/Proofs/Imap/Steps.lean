import Mathlib.Tactic.SplitIfs
import MailClient.Imap.Conversation

/-! What the operations on a connection can do. Each has one lemma for its success and one for its
failure, which name all that changes. -/
namespace MailClient.Imap

def Response.tag? : Response → Option Tag
  | .tagged tag .. => some tag
  | _ => none

def Response.unsettled (r : Response) (tags : List Tag) : List Tag :=
  match r.tag? with
  | some tag => tags.filter (· != tag)
  | none => tags

def Entry.isCommand : Entry → Bool
  | .command .. => true
  | _ => false

def Entry.isIdle : Entry → Bool
  | .command _ sent => sent.name == "IDLE"
  | _ => false

/-- Entries of the handing over of a literal: requests for chunks, and chunks. -/
def Entry.isHandover : Entry → Bool
  | .response (.continuation _) | .chunk .. => true
  | _ => false

namespace Connection

variable {c c' : Connection} {r : Response} {e : Error} {limit : Duration} {tag : Tag}
  {command : Command} {entry : Entry} {bytes : Bytes}

@[simp] theorem transcript_nextTag (c : Connection) : c.nextTag.2.transcript = c.transcript := rfl

@[simp] theorem outstanding_nextTag (c : Connection) :
    c.nextTag.2.outstanding = c.outstanding := rfl

/-! ### Writing -/

theorem write_ok {u : Unit} (h : write bytes entry c = (.ok u, c')) :
    ∃ stream, c' = { c with stream := stream }.record entry := by
  unfold write at h
  dsimp only at h
  split at h
  · cases h
    exact ⟨_, rfl⟩
  · cases h
  · cases h

theorem write_error (h : write bytes entry c = (.error e, c')) :
    ∃ stream, c' = { c with stream := stream }.poison ∧
      ((∃ f, e = .io f) ∨ e = .timeout c.ioLimit) := by
  unfold write at h
  dsimp only at h
  split at h
  · cases h
  next f _ =>
    cases h
    exact ⟨_, rfl, .inl ⟨f, rfl⟩⟩
  · cases h
    exact ⟨_, rfl, .inr rfl⟩

theorem sendLine_ok {line : String} {u : Unit} (h : sendLine line c = (.ok u, c')) :
    c.usable = true ∧ ∃ stream, c' = { c with stream := stream }.record (.line line) := by
  unfold sendLine at h
  split at h
  · cases h
  next hu => exact ⟨by simpa using hu, write_ok h⟩

/-- A command goes out on a connection that is usable and has nothing else to write. -/
theorem send_ok {u : Unit} (h : send tag command c = (.ok u, c')) :
    c.usable = true ∧ tag ∉ c.outstanding ∧ c.pending = none ∧
      ∃ stream pending, (∀ t ∈ pending, t.tag = tag) ∧ (command.arguments = [] → pending = none) ∧
        c' = { c with
          stream := stream
          outstanding := c.outstanding ++ [tag]
          pending := pending }.record (.command tag command) := by
  unfold send at h
  split at h
  · cases h
  next hu =>
    split at h
    · cases h
    next ht =>
      split at h
      · cases h
      next hp =>
        dsimp only at h
        split at h
        · cases h
        next hw =>
          obtain ⟨stream, rfl⟩ := write_ok hw
          cases h
          refine ⟨by simpa using hu, by simpa using ht, hp, stream, _, ?_, ?_, rfl⟩
          · intro t ht
            split at ht
            · cases ht
            · cases ht
              rfl
          · intro ha
            rw [Command.encode, ha]
            rfl

theorem sendChunk_ok {t : Transfer} {u : Unit} (h : sendChunk t c = (.ok u, c')) :
    ∃ stream pending, (∀ t' ∈ pending, t'.tag = t.tag) ∧
      c' = { c with stream := stream, pending := pending }.record (.chunk t.tag t.next) := by
  obtain ⟨stream, rfl⟩ := write_ok h
  refine ⟨stream, _, ?_, rfl⟩
  intro t' ht
  split at ht
  · cases ht
  · cases ht
    rfl

/-! ### Reading -/

theorem receive_ok (h : receive limit c = (.ok r, c')) :
    ∃ stream, c' = { c with stream := stream }.record (.response r) := by
  unfold receive at h
  dsimp only at h
  split at h <;> cases h
  exact ⟨_, rfl⟩

/-- Only a timeout between responses leaves the connection as it was. -/
theorem receive_error (h : receive limit c = (.error e, c')) :
    ∃ stream, c' = { c with stream := stream }.poison ∨
      c' = { c with stream := stream } ∧ e = .timeout limit := by
  unfold receive at h
  dsimp only at h
  split at h
  · cases h
  · cases h
    exact ⟨_, .inl rfl⟩
  · cases h
    exact ⟨_, .inl rfl⟩
  · cases h
    exact ⟨_, .inl rfl⟩
  next s _ =>
    cases h
    refine ⟨(c.stream.read (Parse.framing c.parse) limit).2, ?_⟩
    by_cases hs : s.isPartial = true
    · rw [if_pos hs]
      exact .inl rfl
    · rw [if_neg hs]
      exact .inr ⟨rfl, rfl⟩

theorem observe_eq (r : Response) (c : Connection) :
    ∃ capabilities, c.observe r = { c with capabilities := capabilities } := by
  unfold observe
  split
  · exact ⟨_, rfl⟩
  · exact ⟨_, rfl⟩

/-- A completion has to be one of a command that is outstanding. A literal that the command still
had is dropped. -/
theorem settle_ok {r' : Response} (h : settle r c = (.ok r', c')) :
    r' = r ∧ (∀ tag ∈ r.tag?, tag ∈ c.outstanding) ∧ ∃ capabilities pending,
      (∀ t ∈ pending, t ∈ c.pending ∧ r.tag? ≠ some t.tag) ∧
      c' = { c with
        capabilities := capabilities
        outstanding := r.unsettled c.outstanding
        pending := pending } := by
  cases r with
  | tagged tag status code text =>
    simp only [settle] at h
    split at h
    · cases h
    next ht =>
      obtain ⟨capabilities, ho⟩ := observe_eq (.tagged tag status code text) { c with
        outstanding := c.outstanding.filter (· != tag)
        pending := c.pending.filter fun t => t.tag != tag }
      cases h
      refine ⟨rfl, ?_, capabilities, _, ?_, ho⟩
      · rintro t ⟨⟩
        simpa using ht
      · intro t hf
        obtain ⟨hp, hn⟩ := Option.mem_filter_iff.mp hf
        refine ⟨hp, ?_⟩
        rintro ⟨⟩
        simp at hn
  | untagged u =>
    obtain ⟨capabilities, ho⟩ := observe_eq (.untagged u) c
    cases h
    exact ⟨rfl, by simp [Response.tag?], capabilities, c.pending, by simp [Response.tag?], ho⟩
  | continuation text =>
    obtain ⟨capabilities, ho⟩ := observe_eq (.continuation text) c
    cases h
    exact ⟨rfl, by simp [Response.tag?], capabilities, c.pending, by simp [Response.tag?], ho⟩

theorem settle_error (h : settle r c = (.error e, c')) :
    c' = c.poison ∧ ∃ tag, e = .violation (.unknownTag tag) := by
  cases r with
  | tagged tag status code text =>
    simp only [settle] at h
    split at h
    · cases h
      exact ⟨rfl, tag, rfl⟩
    · cases h
  | untagged u => cases h
  | continuation text => cases h

/-- What a response leaves behind: chunks that were asked for on the way have gone out, and a
literal that still waits belongs to the same command as before. -/
theorem nextResponse_ok (h : nextResponse limit c = (.ok r, c')) :
    (∀ tag ∈ r.tag?, tag ∈ c.outstanding) ∧ ∃ stream capabilities pending log,
      (∀ entry ∈ log, entry.isHandover = true) ∧ (c.pending = none → log = []) ∧
      (∀ t' ∈ pending, (∃ t ∈ c.pending, t.tag = t'.tag) ∧ r.tag? ≠ some t'.tag) ∧
      c' = { c with
        stream := stream
        capabilities := capabilities
        outstanding := r.unsettled c.outstanding
        pending := pending
        transcript := c.transcript ++ log ++ [.response r] } := by
  fun_induction nextResponse limit c with
  | case1 => cases h
  | case2 => cases h
  | case3 c c₁ text t hr hp c₂ hs _ _ ih =>
    obtain ⟨stream, rfl⟩ := receive_ok hr
    obtain ⟨stream₂, pending, ht, rfl⟩ := sendChunk_ok hs
    obtain ⟨known, stream', capabilities, pending', log, hlog, -, hpending, rfl⟩ := ih h
    have hc : c.pending = some t := hp
    refine ⟨known, stream', capabilities, pending',
      .response (.continuation text) :: .chunk t.tag t.next :: log, ?_, ?_, ?_, ?_⟩
    · rintro entry (_ | ⟨_, _ | ⟨_, he⟩⟩)
      · rfl
      · rfl
      · exact hlog entry he
    · intro hn
      rw [hn] at hc
      cases hc
    · intro t' ht'
      obtain ⟨⟨t₁, h₁, h₂⟩, hn⟩ := hpending t' ht'
      exact ⟨⟨t, hc, (ht t₁ h₁).symm.trans h₂⟩, hn⟩
    · simp [record]
  | case4 c c₁ r₁ hr _ _ =>
    obtain ⟨stream, rfl⟩ := receive_ok hr
    obtain ⟨rfl, known, capabilities, pending, hpending, rfl⟩ := settle_ok h
    refine ⟨known, stream, capabilities, pending, [], by simp, fun _ => rfl, ?_, by simp [record]⟩
    intro t' ht'
    exact ⟨⟨t', (hpending t' ht').1, rfl⟩, (hpending t' ht').2⟩

/-- A failure to read makes the connection unusable, unless no response came in time. -/
theorem nextResponse_error (h : nextResponse limit c = (.error e, c')) :
    c'.usable = false ∨ e = .timeout limit ∧ ∃ stream pending log,
      (∀ entry ∈ log, entry.isHandover = true) ∧ (c.pending = none → log = []) ∧
      (∀ t' ∈ pending, ∃ t ∈ c.pending, t.tag = t'.tag) ∧
      c' = { c with
        stream := stream
        pending := pending
        transcript := c.transcript ++ log } := by
  fun_induction nextResponse limit c with
  | case1 c e' c₁ hr =>
    cases h
    obtain ⟨stream, rfl | ⟨rfl, rfl⟩⟩ := receive_error hr
    · exact .inl rfl
    · refine .inr ⟨rfl, stream, c.pending, [], by simp, fun _ => rfl, ?_, by simp⟩
      intro t ht
      exact ⟨t, ht, rfl⟩
  | case2 c c₁ text t hr hp e' c₂ hs =>
    cases h
    obtain ⟨stream, rfl, -⟩ := write_error hs
    exact .inl rfl
  | case3 c c₁ text t hr hp c₂ hs _ _ ih =>
    obtain ⟨stream, rfl⟩ := receive_ok hr
    obtain ⟨stream₂, pending, ht, rfl⟩ := sendChunk_ok hs
    rcases ih h with hu | ⟨rfl, stream', pending', log, hlog, -, hpending, rfl⟩
    · exact .inl hu
    · have hc : c.pending = some t := hp
      refine .inr ⟨rfl, stream', pending',
        .response (.continuation text) :: .chunk t.tag t.next :: log, ?_, ?_, ?_, by simp [record]⟩
      · rintro entry (_ | ⟨_, _ | ⟨_, he⟩⟩)
        · rfl
        · rfl
        · exact hlog entry he
      · intro hn
        rw [hn] at hc
        cases hc
      · intro t' ht'
        obtain ⟨t₁, h₁, h₂⟩ := hpending t' ht'
        exact ⟨t, hc, (ht t₁ h₁).symm.trans h₂⟩
  | case4 c c₁ r₁ hr _ _ =>
    obtain ⟨rfl, -⟩ := settle_error h
    exact .inl rfl

theorem isCommand_of_isHandover (h : entry.isHandover = true) : entry.isCommand = false := by
  cases entry with
  | command => cases h
  | _ => rfl

theorem isIdle_of_not_isCommand (h : entry.isCommand = false) : entry.isIdle = false := by
  cases entry with
  | command => cases h
  | _ => rfl

theorem readResponse_ok (h : readResponse limit c = (.ok r, c')) :
    c.usable = true ∧ nextResponse limit c = (.ok r, c') := by
  unfold readResponse at h
  split at h
  · cases h
  next hu => exact ⟨by simpa using hu, h⟩

structure Heard (c : Connection) (r : Response) (c' : Connection) : Prop where
  usable : c'.usable = true
  known : ∀ tag ∈ r.tag?, tag ∈ c.outstanding
  outstanding : c'.outstanding = r.unsettled c.outstanding
  pending : ∀ t' ∈ c'.pending, (∃ t ∈ c.pending, t.tag = t'.tag) ∧ r.tag? ≠ some t'.tag
  transcript : ∃ log, (∀ entry ∈ log, entry.isHandover = true) ∧ (c.pending = none → log = []) ∧
    c'.transcript = c.transcript ++ log ++ [.response r]

theorem heard_of_readResponse (h : readResponse limit c = (.ok r, c')) : Heard c r c' := by
  obtain ⟨hu, hn⟩ := readResponse_ok h
  obtain ⟨known, stream, capabilities, pending, log, hlog, hnone, hpending, rfl⟩ :=
    nextResponse_ok hn
  exact ⟨hu, known, rfl, hpending, log, hlog, hnone, rfl⟩

/-! Where no literal waits, a response is all that is read. -/

theorem pending_eq_none (h : ∀ t' ∈ c'.pending, ∃ t ∈ c.pending, t.tag = t'.tag)
    (hp : c.pending = none) : c'.pending = none := by
  rw [Option.eq_none_iff_forall_ne_some]
  intro t ht
  obtain ⟨t₁, h₁, -⟩ := h t ht
  rw [hp] at h₁
  cases h₁

theorem Heard.pending_eq (h : Heard c r c') (hp : c.pending = none) : c'.pending = none :=
  pending_eq_none (fun t ht => (h.pending t ht).1) hp

theorem Heard.transcript_eq (h : Heard c r c') (hp : c.pending = none) :
    c'.transcript = c.transcript ++ [.response r] := by
  obtain ⟨log, -, hnone, ht⟩ := h.transcript
  rw [ht, hnone hp, List.append_nil]

structure Unheard (c c' : Connection) : Prop where
  usable : c'.usable = true
  outstanding : c'.outstanding = c.outstanding
  pending : ∀ t' ∈ c'.pending, ∃ t ∈ c.pending, t.tag = t'.tag
  transcript : ∃ log, (∀ entry ∈ log, entry.isHandover = true) ∧ (c.pending = none → log = []) ∧
    c'.transcript = c.transcript ++ log

theorem Unheard.pending_eq (h : Unheard c c') (hp : c.pending = none) : c'.pending = none :=
  pending_eq_none h.pending hp

theorem Unheard.transcript_eq (h : Unheard c c') (hp : c.pending = none) :
    c'.transcript = c.transcript := by
  obtain ⟨log, -, hnone, ht⟩ := h.transcript
  rw [ht, hnone hp, List.append_nil]

/-- A read that fails and leaves the connection usable has just come to nothing. -/
theorem unheard_of_readResponse (h : readResponse limit c = (.error e, c'))
    (hu : c'.usable = true) : Unheard c c' ∧ e = .timeout limit := by
  unfold readResponse at h
  split at h
  next hc =>
    cases h
    simp [hu] at hc
  · rcases nextResponse_error h with hn | ⟨rfl, stream, pending, log, hlog, hnone, hpending, rfl⟩
    · rw [hu] at hn
      cases hn
    · exact ⟨⟨hu, rfl, hpending, log, hlog, hnone, rfl⟩, rfl⟩

/-! ### Whole commands -/

theorem mem_unsettled {tags : List Tag} {t : Tag} :
    t ∈ r.unsettled tags ↔ t ∈ tags ∧ r.tag? ≠ some t := by
  unfold Response.unsettled
  cases r.tag? with
  | none => simp
  | some tag =>
    rw [List.mem_filter, bne_iff_ne, ne_comm]
    simp

structure Concluded (c : Connection) (tag : Tag) (c' : Connection) : Prop where
  usable : c'.usable = true
  outstanding : ∀ t ∈ c'.outstanding, t ∈ c.outstanding ∧ t ≠ tag
  pending : ∀ t' ∈ c'.pending, (∃ t ∈ c.pending, t.tag = t'.tag) ∧ t'.tag ≠ tag
  transcript : ∃ log, (∀ entry ∈ log, entry.isCommand = false) ∧
    c'.transcript = c.transcript ++ log

theorem Heard.log (h : Heard c r c') : ∃ log, (∀ entry ∈ log, entry.isCommand = false) ∧
    c'.transcript = c.transcript ++ log := by
  obtain ⟨log, hlog, -, ht⟩ := h.transcript
  refine ⟨log ++ [.response r], ?_, by rw [ht, List.append_assoc]⟩
  intro entry he
  rcases List.mem_append.mp he with he | he
  · exact isCommand_of_isHandover (hlog entry he)
  · rw [List.mem_singleton.mp he]
    rfl

theorem Heard.concluded {c'' : Connection} (h : Heard c r c') (hc : Concluded c' tag c'') :
    Concluded c tag c'' := by
  obtain ⟨log₁, hlog₁, h₁⟩ := h.log
  obtain ⟨log₂, hlog₂, h₂⟩ := hc.transcript
  refine ⟨hc.usable, ?_, ?_, log₁ ++ log₂, ?_, by rw [h₂, h₁, List.append_assoc]⟩
  · intro t ht
    obtain ⟨hm, hne⟩ := hc.outstanding t ht
    rw [h.outstanding] at hm
    exact ⟨(mem_unsettled.mp hm).1, hne⟩
  · intro t'' ht''
    obtain ⟨⟨t', ht', he'⟩, hne⟩ := hc.pending t'' ht''
    obtain ⟨⟨t, ht, he⟩, -⟩ := h.pending t' ht'
    exact ⟨⟨t, ht, he.trans he'⟩, hne⟩
  · intro entry he
    rcases List.mem_append.mp he with he | he
    · exact hlog₁ entry he
    · exact hlog₂ entry he

theorem concluded_of_collect {before : List Response} {completion : Completion}
    (h : collect tag before c = (.ok completion, c')) : Concluded c tag c' := by
  fun_induction collect tag before c with
  | case1 => cases h
  | case2 => cases h
  | case3 before c status code text c₁ hr =>
    have heard := heard_of_readResponse hr
    cases h
    refine ⟨heard.usable, ?_, ?_, heard.log⟩
    · intro t ht
      rw [heard.outstanding] at ht
      obtain ⟨hm, hne⟩ := mem_unsettled.mp ht
      exact ⟨hm, fun he => hne (congrArg some he.symm)⟩
    · intro t' ht'
      obtain ⟨hm, hne⟩ := heard.pending t' ht'
      exact ⟨hm, fun he => hne (congrArg some he.symm)⟩
  | case4 before c completed status code text c₁ hr _ _ ih =>
    exact (heard_of_readResponse hr).concluded (ih h)
  | case5 before c u c₁ hr _ ih => exact (heard_of_readResponse hr).concluded (ih h)

theorem readUntil_ok {completion : Completion} (h : readUntil tag c = (.ok completion, c')) :
    tag ∈ c.outstanding ∧ collect tag [] c = (.ok completion, c') := by
  unfold readUntil at h
  split at h
  next ht => exact ⟨by simpa using ht, h⟩
  · cases h

structure Calm (c : Connection) : Prop where
  outstanding : c.outstanding = []
  pending : c.pending = none

/-- A command of its own leaves nothing under way behind. -/
theorem execute_ok {completion : Completion} (h : execute command c = (.ok completion, c'))
    (hc : Calm c) : Calm c' ∧ c'.usable = true ∧ ∃ tag log,
      (∀ entry ∈ log, entry.isCommand = false) ∧
      c'.transcript = c.transcript ++ .command tag command :: log := by
  unfold execute at h
  dsimp only at h
  split at h
  · cases h
  next c₁ hs =>
    obtain ⟨-, -, -, stream, pending, htag, -, rfl⟩ := send_ok hs
    split at h
    · cases h
    next done c₂ hr =>
      obtain ⟨-, hcollect⟩ := readUntil_ok hr
      have concluded := concluded_of_collect hcollect
      split at h
      · cases h
      · cases h
        obtain ⟨log, hlog, ht⟩ := concluded.transcript
        refine ⟨⟨?_, ?_⟩, concluded.usable, _, log, hlog, by simpa [record] using ht⟩
        · rw [List.eq_nil_iff_forall_not_mem]
          intro t hm
          obtain ⟨hm, hne⟩ := concluded.outstanding t hm
          have hout : t ∈ c.outstanding ++ [c.nextTag.1] := hm
          rw [hc.outstanding] at hout
          exact hne (by simpa using hout)
        · rw [Option.eq_none_iff_forall_ne_some]
          intro t hm
          obtain ⟨⟨t₁, h₁, he⟩, hne⟩ := concluded.pending t hm
          exact hne (he.symm.trans (htag t₁ h₁))

/-! ### Opening a folder -/

theorem greet_ok {stream : Wire.Stream} {settings : Settings} {u : Unit}
    (h : start stream settings = (.ok u, c')) :
    Calm c' ∧ ∀ entry ∈ c'.transcript, entry.isCommand = false := by
  unfold start greet at h
  split at h
  · cases h
  next u c₁ hr =>
    have heard := heard_of_readResponse hr
    have calm : Calm c₁ := ⟨heard.outstanding, heard.pending_eq rfl⟩
    have quiet : ∀ entry ∈ c₁.transcript, entry.isCommand = false := by
      rw [heard.transcript_eq rfl]
      rintro entry (_ | ⟨_, ⟨⟩⟩)
      rfl
    split at h
    · cases h
      exact ⟨calm, quiet⟩
    · cases h
      exact ⟨⟨calm.outstanding, calm.pending⟩, quiet⟩
    · cases h
    · cases h
  · cases h

theorem capability_eq (c : Connection) : capability c =
    match execute (.named "CAPABILITY") c with
    | (.ok _, c) => (.ok c.capabilities, c)
    | (.error e, c) => (.error e, c) := by
  change Action.bind (execute (.named "CAPABILITY")) _ c = _
  unfold Action.bind
  rcases execute (.named "CAPABILITY") c with ⟨_ | _, c'⟩ <;> rfl

theorem learnCapabilities_ok {names : List String} (h : learnCapabilities c = (.ok names, c'))
    (hc : Calm c) : Calm c' ∧ (c'.transcript = c.transcript ∨ ∃ tag log,
      (∀ entry ∈ log, entry.isCommand = false) ∧
      c'.transcript = c.transcript ++ .command tag (.named "CAPABILITY") :: log) := by
  unfold learnCapabilities at h
  split at h
  · rw [capability_eq] at h
    split at h
    next completion c₁ he =>
      cases h
      obtain ⟨calm, -, grown⟩ := execute_ok he hc
      exact ⟨calm, .inr grown⟩
    · cases h
  · cases h
    exact ⟨hc, .inl rfl⟩

end Connection
end MailClient.Imap
