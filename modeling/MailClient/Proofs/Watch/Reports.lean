import MailClient.Proofs.Watch.Story

/-! Which changes of a folder are reported. A worker makes one report for each IDLE command, of the
first change among the responses it looks at; so a change goes unreported exactly if its cycle
brought nothing to report but what came after `DONE`, or what makes no event of its own kind. -/
namespace MailClient.Watch

open Imap (Entry Event Response Untagged)
open Imap.Idling (said)

/-- A report comes before the worker begins to idle again. -/
def Answered (folder : String) (notes : List Note) : Prop :=
  ∀ between idle after, notes = between ++ idle :: after → idle.isIdle = true →
    between.any (Note.isReport folder) = true

def AnswersAll (folder : String) (notes : List Note) : Prop :=
  ∀ before change after, notes = before ++ change :: after → change.isChange = true →
    Answered folder after

def ReportsChanges (folder : String) (notes : List Note) : Prop :=
  ∀ opening idle rest, notes = opening ++ idle :: rest → idle.isIdle = true → AnswersAll folder rest

/-! ### Answers -/

section Answers

variable {folder : String} {n : Note} {xs ys : List Note}

theorem answered_nil : Answered folder [] := by
  intro between idle after h
  simp at h

theorem answered_cons : Answered folder (n :: xs) ↔
    n.isIdle = false ∧ (n.isReport folder = true ∨ Answered folder xs) := by
  constructor
  · intro h
    constructor
    · rw [← Bool.not_eq_true]
      intro hn
      simpa using h [] n xs rfl hn
    · by_cases hn : n.isReport folder = true
      · exact .inl hn
      · refine .inr fun between idle after hx hi => ?_
        have reported := h (n :: between) idle after (by rw [hx]; rfl) hi
        simpa [hn] using reported
  · rintro ⟨hn, h⟩ between idle after hx hi
    cases between with
    | nil =>
      cases hx
      rw [hi] at hn
      cases hn
    | cons m between =>
      cases hx
      rcases h with h | h
      · simp [h]
      · simp [h between idle after rfl hi]

theorem answered_told {change : Option Event} (hn : n.isIdle = true) :
    Answered folder (told folder change ++ n :: xs) ↔ change.isSome = true := by
  cases change with
  | none => simp [told, answered_cons, hn]
  | some e => simp [told, answered_cons, Note.isIdle, Note.isReport]

theorem answersAll_nil : AnswersAll folder [] := by
  intro before change after h
  simp at h

theorem answersAll_cons : AnswersAll folder (n :: xs) ↔
    (n.isChange = true → Answered folder xs) ∧ AnswersAll folder xs := by
  constructor
  · intro h
    constructor
    · exact h [] n xs rfl
    · intro before change after hx
      exact h (n :: before) change after (by rw [hx]; rfl)
  · rintro ⟨hn, h⟩ before change after hx hc
    cases before with
    | nil =>
      cases hx
      exact hn hc
    | cons m before =>
      cases hx
      exact h before change after rfl hc

theorem answersAll_told {change : Option Event} :
    AnswersAll folder (told folder change ++ xs) ↔ AnswersAll folder xs := by
  cases change with
  | none => rfl
  | some e => simp [told, answersAll_cons, Note.isChange]

/-! A stretch with neither a report nor the beginning of an IDLE command leaves it to what follows
to answer its changes. -/

theorem answered_append (hi : ∀ n ∈ xs, n.isIdle = false)
    (hr : ∀ n ∈ xs, n.isReport folder = false) :
    Answered folder (xs ++ ys) ↔ Answered folder ys := by
  induction xs with
  | nil => rfl
  | cons n xs ih =>
    rw [List.forall_mem_cons] at hi hr
    rw [List.cons_append, answered_cons, ih hi.2 hr.2]
    simp [hi.1, hr.1]

theorem answersAll_append (hi : ∀ n ∈ xs, n.isIdle = false)
    (hr : ∀ n ∈ xs, n.isReport folder = false) : AnswersAll folder (xs ++ ys) ↔
      (xs.any Note.isChange = true → Answered folder ys) ∧ AnswersAll folder ys := by
  induction xs with
  | nil => simp
  | cons n xs ih =>
    rw [List.forall_mem_cons] at hi hr
    rw [List.cons_append, answersAll_cons, answered_append hi.2 hr.2, ih hi.2 hr.2, List.any_cons,
      Bool.or_eq_true, or_imp, and_assoc]

/-- What comes before the first IDLE command is not asked for. -/
theorem reportsChanges_append (hx : ∀ n ∈ xs, n.isIdle = false) (hn : n.isIdle = true) :
    ReportsChanges folder (xs ++ n :: ys) ↔ AnswersAll folder ys := by
  constructor
  · intro h
    exact h xs n ys rfl hn
  · rintro h opening idle rest heq hidle before change after hrest hc
    rcases List.append_eq_append_iff.mp heq with ⟨as, rfl, has⟩ | ⟨bs, rfl, hbs⟩
    · cases as with
      | nil =>
        cases has
        exact h before change after hrest hc
      | cons m as =>
        cases has
        exact h (as ++ idle :: before) change after (by rw [hrest]; simp) hc
    · cases bs with
      | nil =>
        cases hbs
        exact h before change after hrest hc
      | cons m bs =>
        cases hbs
        rw [hx idle (by simp)] at hidle
        cases hidle

theorem reportsChanges_cons : ReportsChanges folder (n :: xs) ↔
    if n.isIdle then AnswersAll folder xs else ReportsChanges folder xs := by
  by_cases hn : n.isIdle = true
  · rw [if_pos hn]
    have quiet : ∀ n ∈ ([] : List Note), n.isIdle = false := by simp
    exact reportsChanges_append quiet hn
  · rw [if_neg hn]
    constructor
    · intro h opening idle rest hx hi
      exact h (n :: opening) idle rest (by rw [hx]; rfl) hi
    · intro h opening idle rest hx hi
      cases opening with
      | nil =>
        cases hx
        exact absurd hi hn
      | cons m opening =>
        cases hx
        exact h opening idle rest rfl hi

instance decidableAnswered (folder : String) : ∀ notes, Decidable (Answered folder notes)
  | [] => .isTrue answered_nil
  | _ :: notes =>
    have := decidableAnswered folder notes
    decidable_of_iff _ answered_cons.symm

instance decidableAnswersAll (folder : String) : ∀ notes, Decidable (AnswersAll folder notes)
  | [] => .isTrue answersAll_nil
  | _ :: notes =>
    have := decidableAnswersAll folder notes
    decidable_of_iff _ answersAll_cons.symm

instance decidableReportsChanges (folder : String) :
    ∀ notes, Decidable (ReportsChanges folder notes)
  | [] => .isTrue (by simp [ReportsChanges])
  | _ :: notes =>
    have := decidableReportsChanges folder notes
    decidable_of_iff _ reportsChanges_cons.symm

end Answers

/-! ### Which changes are answered -/

namespace Cycle

variable {folder : String} {maxIdle : Duration} {y : Cycle}

def HearsChange (y : Cycle) : Prop := ∃ u ∈ y.heard, (Response.untagged u).isFolderChange = true

def SeesChange (maxIdle : Duration) (y : Cycle) : Prop :=
  ∃ u ∈ y.delivered maxIdle, (Event.ofUntagged u).isFolderChange = true

theorem change_isSome : (y.change maxIdle).isSome = true ↔ y.SeesChange maxIdle := by
  simp [change, SeesChange]

theorem exchange_isIdle : ∀ entry ∈ y.exchange, entry.isIdle = false := by
  have quiet (us : List Untagged) : ∀ entry ∈ said us, entry.isIdle = false := by
    intro entry he
    obtain ⟨u, -, rfl⟩ := List.mem_map.mp he
    rfl
  unfold exchange
  cases y.leaving with
  | none => simpa [or_imp, forall_and, Entry.isIdle] using ⟨quiet y.entering, quiet y.waiting⟩
  | some us =>
    simpa [or_imp, forall_and, Entry.isIdle] using ⟨quiet y.entering, quiet y.waiting, quiet us⟩

theorem any_said (us : List Untagged) : ((said us).map Note.entry).any Note.isChange = true ↔
    ∃ u ∈ us, (Response.untagged u).isFolderChange = true := by
  simp [said, Note.isChange]

/-- Only untagged responses tell of changes. -/
theorem any_exchange : (y.exchange.map Note.entry).any Note.isChange = true ↔ y.HearsChange := by
  have prompt : [Note.entry (.response (.continuation y.prompt))].any Note.isChange = false := rfl
  have completion :
      [Note.entry (.response (.tagged y.tag .ok y.code y.text))].any Note.isChange = false := rfl
  have parting : (Note.entry (.line "DONE")).isChange = false := rfl
  unfold exchange HearsChange heard
  cases y.leaving with
  | none =>
    simp only [List.map_append, List.any_append, Bool.or_eq_true, any_said, List.map_cons,
      List.map_nil, prompt, completion]
    simp [or_and_right, exists_or]
  | some us =>
    simp only [List.map_append, List.any_append, Bool.or_eq_true, any_said, List.map_cons,
      List.map_nil, prompt, completion, List.any_cons, parting]
    simp [or_and_right, exists_or, or_assoc]

theorem answersAll_notes (xs : List Note) : AnswersAll folder (y.notes ++ xs) ↔
    (y.HearsChange → Answered folder xs) ∧ AnswersAll folder xs := by
  have hi : ∀ n ∈ y.exchange.map Note.entry, n.isIdle = false := by
    intro n hn
    obtain ⟨entry, he, rfl⟩ := List.mem_map.mp hn
    exact exchange_isIdle entry he
  have hr : ∀ n ∈ y.exchange.map Note.entry, n.isReport folder = false := by
    intro n hn
    obtain ⟨entry, -, rfl⟩ := List.mem_map.mp hn
    rfl
  rw [notes, entries, List.map_cons, List.cons_append, answersAll_cons, answersAll_append hi hr,
    any_exchange]
  simp [Note.isChange]

/-- In a row of cycles each report answers for the cycle before it. -/
theorem answersAll_accounts (ys : List Cycle) :
    AnswersAll folder (ys.flatMap (account folder maxIdle) ++ y.notes) ↔
      ∀ y ∈ ys, y.HearsChange → y.SeesChange maxIdle := by
  induction ys with
  | nil =>
    have last : AnswersAll folder (y.notes ++ []) ↔ _ := answersAll_notes []
    simpa [answered_nil, answersAll_nil] using last
  | cons x ys ih =>
    obtain ⟨n, rest, hn, hidle⟩ : ∃ n rest,
        ys.flatMap (account folder maxIdle) ++ y.notes = n :: rest ∧ n.isIdle = true := by
      cases ys with
      | nil => exact ⟨_, _, rfl, rfl⟩
      | cons x' ys => exact ⟨_, _, rfl, rfl⟩
    rw [hn] at ih
    rw [List.flatMap_cons, List.append_assoc, account, List.append_assoc, answersAll_notes, hn,
      answered_told hidle, answersAll_told, change_isSome, ih, List.forall_mem_cons]

end Cycle

variable {w : Worker} {opening : List Entry} {ys : List Cycle}

theorem reportsChanges_story {y : Cycle} (hq : ∀ entry ∈ opening, entry.isIdle = false) :
    ReportsChanges w.folder (story w opening ys (some y)) ↔
      ∀ y ∈ ys, y.HearsChange → y.SeesChange w.settings.maxIdle := by
  have quiet : ∀ n ∈ opening.map Note.entry, n.isIdle = false := by
    intro n hn
    obtain ⟨entry, he, rfl⟩ := List.mem_map.mp hn
    exact hq entry he
  have last : [y].flatMap Cycle.notes = y.notes := List.flatMap_singleton ..
  obtain ⟨n, rest, hn, hidle, hchange⟩ : ∃ n rest,
      ys.flatMap (Cycle.account w.folder w.settings.maxIdle) ++ y.notes = n :: rest ∧
        n.isIdle = true ∧ n.isChange = false := by
    cases ys with
    | nil => exact ⟨_, _, rfl, rfl, rfl⟩
    | cons x ys => exact ⟨_, _, rfl, rfl, rfl⟩
  rw [← Cycle.answersAll_accounts (y := y), story, Option.toList_some, last, List.append_assoc, hn,
    reportsChanges_append quiet hidle, answersAll_cons, hchange]
  simp

/-- The notes of a worker that has neither failed nor been stopped are its opening and its cycles.
It reports all changes exactly if it looks at a change in each cycle that brings one; so a change
may go unreported only after `DONE`, if it makes no event of its own kind, or if no time may be
spent idle. -/
theorem reportsChanges_iff {sharing : Sharing} {connector : Nat → Attempt} {i : Nat}
    {ds : List Deed} (hw : ((State.initial sharing connector).run ds).workers[i]? = some w)
    (hover : w.plan.isOver = false) :
    ∃ opening ys last, (∀ entry ∈ opening, entry.isIdle = false) ∧
      (State.initial sharing connector).notes i ds = story w opening ys last ∧
      (ReportsChanges w.folder ((State.initial sharing connector).notes i ds) ↔
        ∀ y ∈ ys, y.HearsChange → y.SeesChange w.settings.maxIdle) := by
  have tells := State.tells_of_run (by rfl) ds hw
  generalize (State.initial sharing connector).notes i ds = notes at tells ⊢
  cases tells with
  | unconnected =>
    refine ⟨[], [], none, by simp, rfl, ?_⟩
    simp [story, ReportsChanges]
  | @idling c opening ys y hp calm quiet =>
    exact ⟨opening, ys, some y, quiet, rfl, reportsChanges_story quiet⟩
  | finished h =>
    rw [hover] at h
    cases h

/-- A server that tells of a change between `DONE` and the completion, to a client that idles for
one nanosecond. -/
def lateChange : Nat → Attempt := fun _ =>
  .stream (.start [
    .data (Bytes.ofText "* OK [CAPABILITY IDLE] ready\r\nA0000 OK opened\r\n+ idling\r\n"),
    .pause 2,
    .data (Bytes.ofText "* 5 EXISTS\r\nA0001 OK done\r\n+ idling\r\n"), .pause 2,
    .data (Bytes.ofText "A0002 OK done\r\n")] .unlimited) { host := "mail" }

theorem reportsChanges_late :
    let s := State.initial .unlocked lateChange
    let ds := [.start "INBOX" { maxIdle := 1 }, .step 0, .step 0]
    ¬ReportsChanges "INBOX" (s.notes 0 ds) ∧ ∃ w, (s.run ds).workers[0]? = some w ∧
      w.plan.isOver = false ∧ ∃ opening ys last, s.notes 0 ds = story w opening ys last ∧
        ∃ y ∈ ys, y.HearsChange ∧ ¬y.SeesChange w.settings.maxIdle := by
  intro s ds
  have lost : ¬ReportsChanges "INBOX" (s.notes 0 ds) := by decide +kernel
  have goes : (s.run ds).workers[0]?.map (fun w => (w.folder, w.plan.isOver)) =
      some ("INBOX", false) := by decide +kernel
  obtain ⟨w, hw, h⟩ := Option.map_eq_some_iff.mp goes
  obtain ⟨hfolder, hover⟩ := Prod.mk.inj h
  obtain ⟨opening, ys, last, -, hnotes, hiff⟩ := reportsChanges_iff hw hover
  refine ⟨lost, w, hw, hover, opening, ys, last, hnotes, ?_⟩
  rw [← hfolder, hiff] at lost
  simpa using lost

end MailClient.Watch
