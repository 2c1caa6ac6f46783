import MailClient.Proofs.Imap.Correlation
import MailClient.Watch.Worker

/-! The order of what a worker says: perhaps it asks for the capabilities, it opens its folder, and
then it idles, one command at a time. `Stage` is how far it has come, and whatever leads from stage
to stage has that order as a whole. -/
namespace MailClient.Watch

open Imap (Awaited Command Connection Entry Incident Response Tag)

inductive Stage where
  | fresh
  /-- The server has been asked for its capabilities. -/
  | asking (tag : Tag)
  | learnt
  | opening (tag : Tag)
  /-- The folder is open, and no command is under way. -/
  | ready
  | idling (tag : Tag) (admitted : Bool)
  | leaving (tag : Tag)
  /-- Nothing more is said. -/
  | mute

namespace Stage

def tag? : Stage → Option Tag
  | asking tag | opening tag | idling tag _ | leaving tag => some tag
  | fresh | learnt | ready | mute => none

def completed : Stage → Stage
  | asking _ => learnt
  | opening _ | idling _ true | leaving _ => ready
  | fresh | learnt | ready | idling _ false | mute => mute

def admitted : Stage → Stage
  | idling tag _ => idling tag true
  | s => s

def hear (r : Response) (s : Stage) : Stage :=
  match r with
  | .tagged tag status _ _ => if status = .ok ∧ s.tag? = some tag then s.completed else mute
  | .continuation _ => s.admitted
  | .untagged _ => s

inductive Writes (select : Command) : Stage → Entry → Stage → Prop where
  | asks (tag) : Writes select fresh (.command tag (.named "CAPABILITY")) (asking tag)
  | opens {s} (tag) : s = fresh ∨ s = learnt → Writes select s (.command tag select) (opening tag)
  | hands (tag bytes) : Writes select (opening tag) (.chunk tag bytes) (opening tag)
  | idles (tag) : Writes select ready (.command tag (.named "IDLE")) (idling tag false)
  | leaves (tag) : Writes select (idling tag true) (.line "DONE") (leaving tag)

inductive Turn (select : Command) : Stage → Incident → Stage → Prop where
  | heard (s r) : Turn select s (.heard r) (s.hear r)
  | silence (s) : Turn select s .silence s
  | wrote {s entry s'} (bytes) : Writes select s entry s' → Turn select s (.wrote entry bytes) s'
  | cut {s entry s'} (bytes count) : Writes select s entry s' →
      Turn select s (.cut entry bytes count) mute
  | upset {i} (s) : i.isUpset = true → i.written? = none → Turn select s i mute

inductive Talks (select : Command) : Stage → List Incident → Stage → Prop where
  | refl (s) : Talks select s [] s
  | step {s i s₁ incidents s'} : Turn select s i s₁ → Talks select s₁ incidents s' →
      Talks select s (i :: incidents) s'

variable {select command : Command} {s s' s₁ : Stage} {i : Incident}
  {incidents later before : List Incident} {entry : Entry} {tag : Tag} {r : Response}

theorem Turn.talks (h : Turn select s i s') : Talks select s [i] s' := .step h (.refl s')

theorem Talks.trans (h : Talks select s incidents s₁) (h' : Talks select s₁ later s') :
    Talks select s (incidents ++ later) s' := by
  induction h with
  | refl => exact h'
  | step turn _ ih => exact .step turn (ih h')

theorem Talks.split (h : Talks select s (incidents ++ later) s') :
    ∃ s₁, Talks select s incidents s₁ ∧ Talks select s₁ later s' := by
  induction incidents generalizing s with
  | nil => exact ⟨s, .refl s, h⟩
  | cons i incidents ih =>
    cases h with
    | step turn rest =>
      obtain ⟨s₁, front, back⟩ := ih rest
      exact ⟨s₁, .step turn front, back⟩

/-- The stage in which an incident comes. -/
theorem Talks.turn (h : Talks select s (before ++ i :: later) s') :
    ∃ s₁ s₂, Talks select s before s₁ ∧ Turn select s₁ i s₂ := by
  obtain ⟨s₁, front, back⟩ := h.split
  cases back with
  | step turn _ => exact ⟨s₁, _, front, turn⟩

/-- What was to be written is what could go out. -/
theorem Turn.writes (turn : Turn select s i s') (h : i.written? = some entry) :
    ∃ s₁, Writes select s entry s₁ := by
  cases turn with
  | wrote bytes writes =>
    cases h
    exact ⟨_, writes⟩
  | cut bytes count writes =>
    cases h
    exact ⟨_, writes⟩
  | upset s hu hw => cases hw.symm.trans h
  | heard | silence => cases h

/-! ### Commands -/

/-- A command goes out only where none is under way. -/
theorem Writes.of_command (h : Writes select s (.command tag command) s') :
    s.tag? = none ∧ s ≠ mute ∧ s'.tag? = some tag := by
  cases h with
  | asks => exact ⟨rfl, by simp, rfl⟩
  | idles => exact ⟨rfl, by simp, rfl⟩
  | opens _ hs =>
    rcases hs with rfl | rfl
    · exact ⟨rfl, by simp, rfl⟩
    · exact ⟨rfl, by simp, rfl⟩

/-- While a command is under way only what belongs to it goes out. -/
theorem Writes.of_tag (h : Writes select s entry s') (hs : s.tag? = some tag) :
    s'.tag? = some tag := by
  cases h with
  | hands | leaves => exact hs
  | asks | idles => cases hs
  | opens _ h =>
    rcases h with rfl | rfl
    · cases hs
    · cases hs

theorem tag?_admitted (s : Stage) : s.admitted.tag? = s.tag? := by
  cases s with
  | _ => rfl

def Completed (tag : Tag) (incidents : List Incident) : Prop :=
  ∃ code text, .heard (.tagged tag .ok code text) ∈ incidents

theorem Completed.append (h : Completed tag incidents) (later : List Incident) :
    Completed tag (incidents ++ later) := by
  obtain ⟨code, text, hm⟩ := h
  exact ⟨code, text, List.mem_append_left later hm⟩

theorem tag?_hear (hs : s.tag? = some tag) :
    (s.hear r).tag? = some tag ∨ s.hear r = mute ∨ Completed tag [.heard r] := by
  cases r with
  | tagged completed status code text =>
    by_cases hr : status = .ok ∧ s.tag? = some completed
    · obtain ⟨rfl, hc⟩ := hr
      rw [hs] at hc
      cases hc
      exact .inr (.inr ⟨code, text, List.mem_singleton.mpr rfl⟩)
    · exact .inr (.inl (if_neg hr))
  | untagged u => exact .inl hs
  | continuation text => exact .inl ((tag?_admitted s).trans hs)

/-- A command under way remains so, or is completed, or there are no others. -/
theorem tag?_turn (turn : Turn select s i s') (hs : s.tag? = some tag ∨ s = mute) :
    s'.tag? = some tag ∨ s' = mute ∨ Completed tag [i] := by
  cases turn with
  | cut => exact .inr (.inl rfl)
  | upset => exact .inr (.inl rfl)
  | silence => exact hs.imp id .inl
  | wrote bytes writes =>
    rcases hs with hs | rfl
    · exact .inl (writes.of_tag hs)
    · cases writes with
      | opens _ h => simp at h
  | heard s r =>
    rcases hs with hs | rfl
    · exact tag?_hear hs
    · refine .inr (.inl ?_)
      cases r with
      | tagged completed status code text => exact ite_self _
      | _ => rfl

theorem concat_eq_append_cons {front back : List Incident} {j : Incident}
    (h : before ++ [i] = front ++ j :: back) :
    front = before ∧ j = i ∧ back = [] ∨
      ∃ rest, back = rest ++ [i] ∧ before = front ++ j :: rest := by
  rcases List.eq_nil_or_concat back with rfl | ⟨rest, last, rfl⟩
  · obtain ⟨rfl, hi⟩ := List.append_inj' h rfl
    cases hi
    exact .inl ⟨rfl, rfl, rfl⟩
  · rw [List.concat_eq_append, ← List.cons_append, ← List.append_assoc] at h
    obtain ⟨rfl, hi⟩ := List.append_inj' h rfl
    cases hi
    exact .inr ⟨rest, List.concat_eq_append, rfl⟩

def Settled (before : List Incident) (s : Stage) : Prop :=
  ∀ ⦃front j back tag command⦄, before = front ++ j :: back →
    j.written? = some (.command tag command) →
      Completed tag back ∨ s.tag? = some tag ∨ s = mute

theorem settled_turn (h : Settled before s) (turn : Turn select s i s') :
    Settled (before ++ [i]) s' := by
  intro front j back tag command hb hj
  rcases concat_eq_append_cons hb with ⟨-, rfl, rfl⟩ | ⟨back, rfl, rfl⟩
  · cases turn with
    | wrote bytes writes =>
      cases hj
      exact .inr (.inl writes.of_command.2.2)
    | cut => exact .inr (.inr rfl)
    | upset => exact .inr (.inr rfl)
    | heard | silence => cases hj
  · rcases h rfl hj with done | underWay
    · exact .inl (done.append [i])
    · rcases tag?_turn turn underWay with same | rfl | ⟨code, text, hm⟩
      · exact .inr (.inl same)
      · exact .inr (.inr rfl)
      · exact .inl ⟨code, text, List.mem_append_right back hm⟩

/-! ### Idling -/

/-- The IDLE command that is under way is the last that was written, and its completion has not been
read. -/
def Idles (before : List Incident) (s : Stage) : Prop :=
  ∀ ⦃tag admitted⦄, s = idling tag admitted → ∃ front j back, before = front ++ j :: back ∧
    j.written? = some (.command tag (.named "IDLE")) ∧
    (admitted = true → ∃ prompt, .heard (.continuation prompt) ∈ back) ∧
    ∀ x ∈ back, x.written? = none ∧ x.completes tag = false

theorem tag?_completed (s : Stage) : s.completed.tag? = none := by
  cases s with
  | idling tag admitted => cases admitted <;> rfl
  | _ => rfl

/-- No command is under way after a completion. -/
theorem tag?_hear_tagged (s : Stage) (status : Imap.Status) (code : Option (List Imap.Token))
    (text : String) : (s.hear (.tagged tag status code text)).tag? = none := by
  by_cases hr : status = .ok ∧ s.tag? = some tag
  · rw [hear, if_pos hr]
    exact tag?_completed s
  · rw [hear, if_neg hr]
    rfl

theorem completed_ne_idling (s : Stage) (tag : Tag) (admitted : Bool) :
    s.completed ≠ idling tag admitted := by
  intro h
  have none := tag?_completed s
  rw [h] at none
  cases none

theorem Idles.silent (h : Idles before s) (hw : i.written? = none)
    (hc : ∀ tag, i.completes tag = false) : Idles (before ++ [i]) s := by
  rintro tag admitted rfl
  obtain ⟨front, j, back, rfl, hj, hp, hq⟩ := h rfl
  refine ⟨front, j, back ++ [i], by simp, hj, fun ha => ?_, ?_⟩
  · obtain ⟨prompt, hm⟩ := hp ha
    exact ⟨prompt, List.mem_append_left _ hm⟩
  · intro x hx
    rcases List.mem_append.mp hx with hx | hx
    · exact hq x hx
    · rw [List.mem_singleton.mp hx]
      exact ⟨hw, hc tag⟩

theorem idles_turn (h : Idles before s) (turn : Turn select s i s') : Idles (before ++ [i]) s' := by
  cases turn with
  | silence => exact h.silent rfl fun _ => rfl
  | cut | upset =>
    intro tag admitted hs
    cases hs
  | wrote bytes writes =>
    intro tag admitted hs
    subst hs
    cases writes with
    | idles => exact ⟨before, _, [], rfl, rfl, by simp, by simp⟩
  | heard s r =>
    cases r with
    | tagged completed status code text =>
      intro tag admitted hs
      by_cases hr : status = .ok ∧ s.tag? = some completed
      · rw [hear, if_pos hr] at hs
        exact absurd hs (completed_ne_idling s tag admitted)
      · rw [hear, if_neg hr] at hs
        cases hs
    | untagged u => exact h.silent rfl fun _ => rfl
    | continuation prompt =>
      cases s with
      | idling tag admitted =>
        intro tag' admitted' hs
        cases hs
        obtain ⟨front, j, back, rfl, hj, -, hq⟩ := h rfl
        refine ⟨front, j, back ++ [.heard (.continuation prompt)], by simp, hj,
          fun _ => ⟨prompt, by simp⟩, ?_⟩
        intro x hx
        rcases List.mem_append.mp hx with hx | hx
        · exact hq x hx
        · rw [List.mem_singleton.mp hx]
          exact ⟨rfl, rfl⟩
      | _ =>
        intro tag admitted hs
        cases hs

/-! ### Lines -/

def Asked (lines : List Entry) : Prop :=
  lines = [] ∨ ∃ tag, lines = [.command tag (.named "CAPABILITY")]

def Opened (select : Command) (lines : List Entry) : Prop :=
  ∃ (asked : List Entry) (tag : Tag) (chunks : List Bytes), Asked asked ∧
    lines = asked ++ .command tag select :: chunks.map (.chunk tag)

structure Round where
  tag : Tag
  ended : Bool

def Round.lines (y : Round) : List Entry :=
  .command y.tag (.named "IDLE") :: if y.ended then [.line "DONE"] else []

def Said (select : Command) (lines : List Entry) : Prop :=
  Asked lines ∨ ∃ (front : List Entry) (rounds : List Round), Opened select front ∧
    lines = front ++ rounds.flatMap Round.lines

def Spoken (select : Command) : Stage → List Entry → Prop
  | fresh, lines => lines = []
  | asking _, lines | learnt, lines => Asked lines
  | opening tag, lines => ∃ (asked : List Entry) (chunks : List Bytes), Asked asked ∧
    lines = asked ++ .command tag select :: chunks.map (.chunk tag)
  | ready, lines | leaving _, lines => ∃ (front : List Entry) (rounds : List Round),
    Opened select front ∧ lines = front ++ rounds.flatMap Round.lines
  | idling tag _, lines => ∃ (front : List Entry) (rounds : List Round), Opened select front ∧
    lines = front ++ rounds.flatMap Round.lines ++ [.command tag (.named "IDLE")]
  | mute, lines => Said select lines

variable {lines : List Entry}

theorem Spoken.said (h : Spoken select s lines) : Said select lines := by
  cases s with
  | fresh => exact .inl (.inl h)
  | asking | learnt => exact .inl h
  | opening tag =>
    obtain ⟨asked, chunks, ha, hl⟩ := h
    exact .inr ⟨lines, [], ⟨asked, tag, chunks, ha, hl⟩, by simp⟩
  | ready | leaving => exact .inr h
  | idling tag =>
    obtain ⟨front, rounds, hf, hl⟩ := h
    exact .inr ⟨front, rounds ++ [⟨tag, false⟩], hf, by simp [hl, Round.lines]⟩
  | mute => exact h

theorem Spoken.writes (h : Spoken select s lines) (writes : Writes select s entry s') :
    Spoken select s' (lines ++ [entry]) := by
  cases writes with
  | asks tag =>
    rw [show lines = [] from h]
    exact .inr ⟨tag, rfl⟩
  | opens tag hs =>
    have asked : Asked lines := by
      rcases hs with rfl | rfl
      · exact .inl h
      · exact h
    exact ⟨lines, [], asked, rfl⟩
  | hands tag bytes =>
    obtain ⟨asked, chunks, ha, hl⟩ := h
    exact ⟨asked, chunks ++ [bytes], ha, by simp [hl]⟩
  | idles tag =>
    obtain ⟨front, rounds, hf, hl⟩ := h
    exact ⟨front, rounds, hf, by rw [hl]⟩
  | leaves tag =>
    obtain ⟨front, rounds, hf, hl⟩ := h
    exact ⟨front, rounds ++ [⟨tag, true⟩], hf, by simp [hl, Round.lines]⟩

theorem Spoken.completed (h : Spoken select s lines) : Spoken select s.completed lines := by
  cases s with
  | asking | leaving => exact h
  | opening tag =>
    obtain ⟨asked, chunks, ha, hl⟩ := h
    exact ⟨lines, [], ⟨asked, tag, chunks, ha, hl⟩, by simp⟩
  | idling tag admitted =>
    cases admitted with
    | false => exact h.said
    | true =>
      obtain ⟨front, rounds, hf, hl⟩ := h
      exact ⟨front, rounds ++ [⟨tag, false⟩], hf, by simp [hl, Round.lines]⟩
  | fresh | learnt | ready | mute => exact h.said

theorem Spoken.hear (h : Spoken select s lines) (r : Response) :
    Spoken select (s.hear r) lines := by
  cases r with
  | tagged completed status code text =>
    by_cases hr : status = .ok ∧ s.tag? = some completed
    · rw [Stage.hear, if_pos hr]
      exact h.completed
    · rw [Stage.hear, if_neg hr]
      exact h.said
  | untagged u => exact h
  | continuation prompt =>
    cases s with
    | _ => exact h

theorem spoken_turn (h : Spoken select s (before.filterMap Incident.written?))
    (turn : Turn select s i s') :
    Spoken select s' ((before ++ [i]).filterMap Incident.written?) := by
  rw [List.filterMap_append]
  cases turn with
  | heard s r =>
    rw [List.filterMap_cons_none rfl, List.filterMap_nil, List.append_nil]
    exact h.hear r
  | silence =>
    rw [List.filterMap_cons_none rfl, List.filterMap_nil, List.append_nil]
    exact h
  | wrote bytes writes => exact h.writes writes
  | cut bytes count writes => exact (h.writes writes).said
  | upset s hu hw =>
    rw [List.filterMap_cons_none hw, List.filterMap_nil, List.append_nil]
    exact h.said

/-! ### Whole conversations -/

/-- Each command comes after the completion of all commands before it, with OK. -/
def Serial (incidents : List Incident) : Prop :=
  ∀ ⦃before i after tag command⦄, incidents = before ++ i :: after →
    i.written? = some (.command tag command) → ∀ ⦃front j back tag' command'⦄,
      before = front ++ j :: back → j.written? = some (.command tag' command') →
        Completed tag' back

structure Told (select : Command) (before : List Incident) (s : Stage) : Prop where
  settled : Settled before s
  idles : Idles before s
  spoken : Spoken select s (before.filterMap Incident.written?)

theorem Told.talks (h : Talks select s later s') (told : Told select before s) :
    Told select (before ++ later) s' := by
  induction h generalizing before with
  | refl =>
    rw [List.append_nil]
    exact told
  | @step s i s₁ later s' turn _ ih =>
    have next := ih ⟨settled_turn told.settled turn, idles_turn told.idles turn,
      spoken_turn told.spoken turn⟩
    rwa [List.append_assoc] at next

theorem Serial.front (h : Serial (incidents ++ later)) : Serial incidents := by
  rintro before i after tag command rfl
  exact h (List.append_assoc before (i :: after) later)

/-- A command that is followed by another one is waited for no more. -/
theorem Serial.heard_between {front back after : List Incident} {tag' : Tag}
    {command' : Command} {bytes bytes' : Bytes}
    (h : Serial (front ++ .wrote (.command tag command) bytes :: back ++
      .wrote (.command tag' command') bytes' :: after)) :
    ∃ x ∈ back, x.completes tag = true := by
  obtain ⟨code, text, hm⟩ := h rfl rfl rfl rfl
  exact ⟨_, hm, beq_self_eq_true tag⟩

theorem Serial.unique {tag' : Tag} (h : Serial incidents) (ht : Awaited tag incidents)
    (ht' : Awaited tag' incidents) : tag = tag' := by
  obtain ⟨before, command, bytes, after, rfl, quiet⟩ := ht
  obtain ⟨before', command', bytes', after', hi, quiet'⟩ := ht'
  -- The two commands are the same, or there is a completion between them.
  rcases List.append_eq_append_iff.mp hi with ⟨rest, rfl, hrest⟩ | ⟨rest, rfl, hrest⟩
  · cases rest with
    | nil =>
      cases hrest
      rfl
    | cons x rest =>
      cases hrest
      obtain ⟨x, hx, completes⟩ := Serial.heard_between (hi ▸ h)
      exact absurd completes (by simp [quiet x (List.mem_append_left _ hx)])
  · cases rest with
    | nil =>
      cases hrest
      rfl
    | cons x rest =>
      cases hrest
      obtain ⟨x, hx, completes⟩ := h.heard_between
      exact absurd completes (by simp [quiet' x (List.mem_append_left _ hx)])

end Stage
end MailClient.Watch
