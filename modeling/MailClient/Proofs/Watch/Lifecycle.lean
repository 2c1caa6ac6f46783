import MailClient.Proofs.Watch.Session

/-! The life of a watch: when it can be started and stopped, and when its lock is held and its
receiver is told, whatever the workers of earlier starts still do. -/
namespace MailClient.Watch

open Imap (Error)

def Always {α : Type} (P : List α → α → Prop) (l : List α) : Prop :=
  ∀ before x after, l = before ++ x :: after → P before x

section Always

variable {α : Type} {P : List α → α → Prop} {x : α} {l l' : List α}

theorem always_nil : Always P [] := by
  intro before x after h
  simp at h

theorem always_cons : Always P (x :: l) ↔ P [] x ∧ Always (fun before => P (x :: before)) l := by
  constructor
  · intro h
    exact ⟨h [] x l rfl, fun before y after split => h (x :: before) y after (by rw [split]; rfl)⟩
  · rintro ⟨first, rest⟩ before y after split
    cases before with
    | nil =>
      cases split
      exact first
    | cons x before =>
      cases split
      exact rest before y after rfl

theorem always_append :
    Always P (l ++ l') ↔ Always P l ∧ Always (fun before => P (l ++ before)) l' := by
  induction l generalizing P with
  | nil => simp [always_nil]
  | cons x l ih => rw [List.cons_append, always_cons, ih, always_cons, and_assoc]; rfl

theorem always_singleton : Always P [x] ↔ P [] x := by
  rw [always_cons]
  exact and_iff_left always_nil

end Always

namespace Mark

def turn? : Mark → Option Bool
  | .demanded .start (.ok _) => some true
  | .demanded .stop (.ok _) | .dropped => some false
  | .demanded _ (.error _) | .signal .. => none

def lockCall? : Mark → Option LockCall
  | .signal _ (.lock call) => some call
  | .signal _ (.changed ..) | .signal _ (.failed ..) | .demanded .. | .dropped => none

def isFailure (i : Nat) : Mark → Bool
  | .signal worker (.failed ..) => worker == some i
  | .signal _ (.lock _) | .signal _ (.changed ..) | .demanded .. | .dropped => false

end Mark

/-! ### What marks tell -/

namespace Chronicle

variable {sharing : Sharing} {marks new : List Mark} {worker : Option Nat} {call : LockCall}

def turns (marks : List Mark) : List Bool := marks.filterMap Mark.turn?

def starts (marks : List Mark) : Nat := (turns marks).count true

def isStarted (marks : List Mark) : Bool := (turns marks).getLast? == some true

def lockCalls (marks : List Mark) : List LockCall := marks.filterMap Mark.lockCall?

def failures (i : Nat) (marks : List Mark) : Nat := marks.countP (Mark.isFailure i)

/-- The last start is start `i`, and it has not been ended. -/
def Present (i : Nat) (marks : List Mark) : Prop := isStarted marks = true ∧ starts marks = i + 1

/-- What a mark has to be after those before it. Only the worker of the present start gives
signals, and it has given the lock back when it says that it failed. -/
def Lawful (sharing : Sharing) (folder : String) (before : List Mark) : Mark → Prop
  | .demanded .start r =>
    r = if isStarted before then .error (.misuse (.watchStarted folder)) else .ok ()
  | .demanded .stop r =>
    r = if isStarted before then .ok () else .error (.misuse (.watchNotStarted folder))
  | .dropped => True
  | .signal worker s => (∀ i, worker = some i → Present i before) ∧
    match s with
    | .lock call => call = .acquire ↔ (lockCalls before).getLast? ≠ some .acquire
    | .changed .. => worker ≠ none
    | .failed .. => worker ≠ none ∧
      (lockCalls before).getLast? = if sharing = .unlocked then none else some .release

theorem turns_append : turns (marks ++ new) = turns marks ++ turns new := List.filterMap_append

theorem starts_append : starts (marks ++ new) = starts marks + starts new := by
  unfold starts
  rw [turns_append, List.count_append]

theorem lockCalls_append : lockCalls (marks ++ new) = lockCalls marks ++ lockCalls new :=
  List.filterMap_append

theorem failures_append (i : Nat) :
    failures i (marks ++ new) = failures i marks + failures i new := List.countP_append

theorem turns_seen : turns (seen sharing worker call) = [] := by
  unfold seen
  split <;> rfl

theorem lockCalls_seen :
    lockCalls (seen sharing worker call) = if sharing = .unlocked then [] else [call] := by
  unfold seen
  split <;> rfl

theorem failures_seen (i : Nat) : failures i (seen sharing worker call) = 0 := by
  unfold seen
  split <;> rfl

/-- Starts are counted up, so one that is over does not come back. -/
theorem not_present_of_ended {i : Nat} {m : Mark} (ended : m.turn? = some false)
    (hi : i < starts marks) : ¬Present i (marks ++ m :: new) := by
  rintro ⟨started, count⟩
  have cons : turns (m :: new) = false :: turns new := by simp [turns, ended]
  have none : starts new = 0 := by
    rw [starts_append] at count
    unfold starts at *
    rw [cons, List.count_cons] at count
    omega
  have only : ∀ b ∈ turns new, b = false := by
    intro b hb
    cases b with
    | false => rfl
    | true => exact absurd hb (List.count_eq_zero.mp none)
  have last : (turns (marks ++ m :: new)).getLast? = some true := by
    simpa [isStarted] using started
  rw [turns_append, cons, List.getLast?_append, List.getLast?_cons, Option.some_or] at last
  cases h : (turns new).getLast? with
  | none => simp [h] at last
  | some b =>
    have := only b (List.mem_of_getLast? h)
    simp [h, this] at last

end Chronicle

namespace Session

open Chronicle

structure Lifecycle (sharing : Sharing) (folder : String) (s : Session) (marks : List Mark) :
    Prop where
  lawful : Always (Lawful sharing folder) marks
  started : s.watch.any (·.isStarted) = isStarted marks
  acquires : (lockCalls marks).count .acquire = if sharing = .unlocked then 0 else starts marks
  held : s.isHeld = true ↔ ∃ i, Present i marks ∧ failures i marks = 0
  locked : (lockCalls marks).getLast? = some .acquire ↔ sharing ≠ .unlocked ∧ s.isHeld = true
  once : ∀ i, failures i marks ≤ 1
  /-- Once a start is over, no signal of its worker follows. -/
  silent : ∀ before m after, marks = before ++ m :: after → m.turn? = some false →
    ∀ i s, i < starts before → .signal (some i) s ∉ after

variable {sharing : Sharing} {folder : String} {n n' : Nat} {stage stage' : Stage}
  {marks new : List Mark} {worker : Option Nat} {call : LockCall}

/-! ### Starts -/

theorem turns_turn (t : Turn sharing folder n stage new n' stage') :
    turns new = [] ∧ n' = n ∧ stage'.isStarted = stage.isStarted ∨
    turns new = [true] ∧ n' = n + 1 ∧ stage'.isStarted = true ∨
    turns new = [false] ∧ n' = n ∧ stage'.isStarted = false := by
  cases t with
  | quiet | startAgain | stopAgain | change => exact .inl ⟨rfl, rfl, rfl⟩
  | fail =>
    left
    rw [turns_append, turns_seen]
    exact ⟨rfl, rfl, rfl⟩
  | start =>
    right
    left
    exact ⟨congrArg (true :: ·) turns_seen, rfl, rfl⟩
  | stop | drop =>
    right
    right
    exact ⟨congrArg (false :: ·) turns_seen, rfl, rfl⟩
  | stopLost | dropLoose =>
    right
    right
    exact ⟨rfl, rfl, rfl⟩

structure Counted (n : Nat) (stage : Stage) (marks : List Mark) : Prop where
  starts : starts marks = n
  started : isStarted marks = stage.isStarted
  positive : stage.isStarted = true → 0 < n

theorem counted_course (c : Course sharing folder n stage marks) : Counted n stage marks := by
  induction c with
  | begin => exact ⟨rfl, rfl, fun started => by cases started⟩
  | @turn n stage marks new n' stage' _ t ih =>
    obtain ⟨starts, started, positive⟩ := ih
    rcases turns_turn t with ⟨none, rfl, same⟩ | ⟨one, rfl, on⟩ | ⟨one, rfl, off⟩
    · refine ⟨?_, ?_, ?_⟩
      · rw [Chronicle.starts, turns_append, none, List.append_nil]
        exact starts
      · rw [same, isStarted, turns_append, none, List.append_nil]
        exact started
      · rw [same]
        exact positive
    · refine ⟨?_, ?_, fun _ => Nat.succ_pos _⟩
      · rw [Chronicle.starts, turns_append, one, List.count_append, ← starts]
        rfl
      · rw [on, isStarted, turns_append, one, List.getLast?_concat]
        rfl
    · refine ⟨?_, ?_, ?_⟩
      · rw [Chronicle.starts, turns_append, one, List.count_append, ← starts]
        rfl
      · rw [off, isStarted, turns_append, one, List.getLast?_concat]
        rfl
      · rw [off]
        intro absurd
        cases absurd

theorem present_course {i : Nat} (c : Course sharing folder n stage marks) :
    Present i marks ↔ stage.isStarted = true ∧ n = i + 1 := by
  obtain ⟨starts, started, -⟩ := counted_course c
  rw [Present, starts, started]

/-! ### The lock -/

theorem lockCalls_turn (t : Turn sharing folder n stage new n' stage') :
    lockCalls new = [] ∧ n' = n ∧ (stage' = .holding ↔ stage = .holding) ∨
    lockCalls new = (if sharing = .unlocked then [] else [.acquire]) ∧ n' = n + 1 ∧
      stage ≠ .holding ∧ stage' = .holding ∨
    lockCalls new = (if sharing = .unlocked then [] else [.release]) ∧ n' = n ∧
      stage = .holding ∧ stage' ≠ .holding := by
  cases t with
  | quiet | startAgain | change => exact .inl ⟨rfl, rfl, .rfl⟩
  | stopLost | stopAgain => exact .inl ⟨rfl, rfl, by simp⟩
  | dropLoose loose =>
    left
    refine ⟨rfl, rfl, ?_⟩
    rcases loose with rfl | rfl <;> simp
  | start =>
    right
    left
    exact ⟨lockCalls_seen, rfl, by simp, rfl⟩
  | stop | drop =>
    right
    right
    exact ⟨lockCalls_seen, rfl, rfl, by simp⟩
  | fail =>
    right
    right
    rw [lockCalls_append, lockCalls_seen]
    exact ⟨List.append_nil _, rfl, rfl, by simp⟩

def lastCall (sharing : Sharing) (n : Nat) (stage : Stage) : Option LockCall :=
  if sharing = .unlocked ∨ n = 0 then none
  else if stage = .holding then some .acquire else some .release

theorem lockCalls_course (c : Course sharing folder n stage marks) :
    (lockCalls marks).getLast? = lastCall sharing n stage ∧
    (lockCalls marks).count .acquire = if sharing = .unlocked then 0 else n := by
  induction c with
  | begin => simp [lockCalls, lastCall]
  | @turn n stage marks new n' stage' c t ih =>
    obtain ⟨last, count⟩ := ih
    rw [lockCalls_append, List.getLast?_append, List.count_append, last, count]
    by_cases hu : sharing = .unlocked
    · have none : lockCalls new = [] := by
        rcases lockCalls_turn t with ⟨h, -⟩ | ⟨h, -⟩ | ⟨h, -⟩
        · exact h
        · rwa [if_pos hu] at h
        · rwa [if_pos hu] at h
      simp [none, lastCall, hu]
    · rcases lockCalls_turn t with ⟨none, rfl, same⟩ | ⟨one, rfl, off, rfl⟩ | ⟨one, rfl, rfl, off⟩
      · simp [none, lastCall, same]
      · simp [one, lastCall, hu]
      · -- There has been a start, or there would be nothing to release.
        have positive := (counted_course c).positive rfl
        simp [one, lastCall, hu, off, Nat.ne_of_gt positive]

/-! ### Failures -/

theorem failures_turn (t : Turn sharing folder n stage new n' stage') :
    (∀ i, failures i new = 0) ∧ (n' = n ∧ stage' = stage ∨ n' = n + 1 ∧ stage' = .holding ∨
      n' = n ∧ stage'.isStarted = false) ∨
    ∃ j, n = j + 1 ∧ n' = n ∧ stage = .holding ∧ stage' = .lost ∧
      ∀ i, failures i new = if j = i then 1 else 0 := by
  cases t with
  | quiet | startAgain | stopAgain | change => exact .inl ⟨fun _ => rfl, .inl ⟨rfl, rfl⟩⟩
  | start => exact .inl ⟨fun i => failures_seen i, .inr (.inl ⟨rfl, rfl⟩)⟩
  | stop | drop => exact .inl ⟨fun i => failures_seen i, .inr (.inr ⟨rfl, rfl⟩)⟩
  | stopLost | dropLoose => exact .inl ⟨fun _ => rfl, .inr (.inr ⟨rfl, rfl⟩)⟩
  | @fail j name e =>
    refine .inr ⟨j, rfl, rfl, rfl, rfl, ?_⟩
    intro i
    rw [failures_append, failures_seen, Nat.zero_add]
    simp [failures, Mark.isFailure]

structure Failing (n : Nat) (stage : Stage) (marks : List Mark) : Prop where
  once : ∀ i, failures i marks ≤ 1
  later : ∀ i, n ≤ i → failures i marks = 0
  last : ∀ i, n = i + 1 → stage.isStarted = true → (failures i marks = 0 ↔ stage = .holding)

theorem failing_course (c : Course sharing folder n stage marks) : Failing n stage marks := by
  -- `later` carries the induction: a start to come cannot have failed yet.
  induction c with
  | begin => exact ⟨fun _ => Nat.zero_le _, fun _ _ => rfl, fun _ _ started => by cases started⟩
  | @turn n stage marks new n' stage' c t ih =>
    obtain ⟨once, later, last⟩ := ih
    rcases failures_turn t with ⟨none, how⟩ | ⟨j, rfl, rfl, rfl, rfl, one⟩
    · have same : ∀ i, failures i (marks ++ new) = failures i marks := by
        intro i
        rw [failures_append, none, Nat.add_zero]
      simp only [← same] at once later last
      refine ⟨once, ?_, ?_⟩
      · intro i hi
        apply later
        omega
      · intro i hi started
        rcases how with ⟨rfl, rfl⟩ | ⟨rfl, rfl⟩ | ⟨-, off⟩
        · exact last i hi started
        · exact ⟨fun _ => rfl, fun _ => later i (by omega)⟩
        · rw [off] at started
          cases started
    · have mine : failures j marks = 0 := (last j rfl rfl).mpr rfl
      refine ⟨?_, ?_, ?_⟩
      · intro i
        rw [failures_append, one]
        by_cases hi : j = i
        · simp [← hi, mine]
        · rw [if_neg hi]
          exact once i
      · intro i hi
        rw [failures_append, one, if_neg (by omega)]
        exact later i hi
      · intro i hi _
        cases hi
        rw [failures_append, one, if_pos rfl, mine]
        simp

/-! ### What each mark has to be -/

theorem always_seen {P : List Mark → Mark → Prop}
    (h : sharing ≠ .unlocked → P [] (.signal worker (.lock call))) :
    Always P (seen sharing worker call) := by
  unfold seen
  split
  · exact always_nil
  next visible => exact always_singleton.mpr (h visible)

theorem lastCall_acquire : lastCall sharing n stage = some .acquire ↔
    sharing ≠ .unlocked ∧ 0 < n ∧ stage = .holding := by
  unfold lastCall
  split
  next h => rcases h with h | h <;> simp [h]
  next h =>
    rw [not_or] at h
    by_cases hs : stage = .holding
    · simp [hs, h.1, Nat.pos_of_ne_zero h.2]
    · simp [hs]

/-- A call by the session itself, after a demand. -/
theorem lawful_own {m : Mark} (quiet : m.lockCall? = none)
    (c : Course sharing folder n stage marks) (h : call = .acquire ↔ stage ≠ .holding)
    (visible : sharing ≠ .unlocked) :
    Lawful sharing folder (marks ++ [m]) (.signal none (.lock call)) := by
  refine ⟨(by intro i; simp), ?_⟩
  have none : lockCalls [m] = [] := List.filterMap_eq_nil_iff.mpr (by simpa using quiet)
  dsimp only
  rw [lockCalls_append, none, List.append_nil, (lockCalls_course c).1, ne_eq, lastCall_acquire, h]
  constructor
  · rintro off ⟨-, -, on⟩
    exact off on
  · intro off on
    apply off
    subst on
    exact ⟨visible, (counted_course c).positive rfl, rfl⟩

theorem lawful_turn (c : Course sharing folder n stage marks)
    (t : Turn sharing folder n stage new n' stage') :
    Always (fun before => Lawful sharing folder (marks ++ before)) new := by
  have started := (counted_course c).started
  cases t with
  | quiet => exact always_nil
  | start =>
    rw [always_cons]
    constructor
    · simp [Lawful, started, Stage.isStarted]
    · exact always_seen (lawful_own rfl c (by simp))
  | stop =>
    rw [always_cons]
    constructor
    · simp [Lawful, started, Stage.isStarted]
    · exact always_seen (lawful_own rfl c (by simp))
  | drop =>
    rw [always_cons]
    constructor
    · exact trivial
    · exact always_seen (lawful_own rfl c (by simp))
  | startAgain on =>
    rw [always_singleton]
    simp [Lawful, started, on]
  | stopLost | stopAgain =>
    rw [always_singleton]
    simp [Lawful, started, Stage.isStarted]
  | dropLoose =>
    rw [always_singleton]
    exact trivial
  | @change i name event =>
    have present : Present i marks := (present_course c).mpr ⟨rfl, rfl⟩
    rw [always_singleton, List.append_nil]
    refine ⟨?_, by simp⟩
    rintro _ ⟨⟩
    exact present
  | @fail i name e =>
    have present : Present i marks := (present_course c).mpr ⟨rfl, rfl⟩
    have last := (lockCalls_course c).1
    rw [always_append, always_singleton, List.append_nil]
    constructor
    · apply always_seen
      intro visible
      rw [List.append_nil]
      constructor
      · rintro _ ⟨⟩
        exact present
      · simp [last, lastCall, visible]
    · refine ⟨?_, by simp, ?_⟩
      · rintro _ ⟨⟩
        unfold Present isStarted starts at *
        rw [turns_append, turns_seen, List.append_nil]
        exact present
      · rw [lockCalls_append, lockCalls_seen]
        by_cases hu : sharing = .unlocked
        · simp [hu, last, lastCall]
        · simp [hu]

theorem lawful_course (c : Course sharing folder n stage marks) :
    Always (Lawful sharing folder) marks := by
  induction c with
  | begin => exact always_nil
  | turn c t ih => exact always_append.mpr ⟨ih, lawful_turn c t⟩

/-! ### After the end of a start -/

theorem silent_of_lawful (h : Always (Lawful sharing folder) marks) (before : List Mark) (m : Mark)
    (after : List Mark) (split : marks = before ++ m :: after) (ended : m.turn? = some false)
    (i : Nat) (s : Signal) (hi : i < starts before) : .signal (some i) s ∉ after := by
  intro mem
  obtain ⟨between, rest, rfl⟩ := List.append_of_mem mem
  have lawful := h (before ++ m :: between) (.signal (some i) s) rest (by simp [split])
  exact not_present_of_ended ended hi (lawful.1 i rfl)

/-! ### All runs -/

theorem isStarted_stage (s : Session) : s.watch.any (·.isStarted) = s.stage.isStarted := by
  obtain ⟨watch, state⟩ := s
  cases watch with
  | none => rfl
  | some f =>
    cases hw : f.worker with
    | none => simp [Session.stage, FolderWatch.isStarted, hw, Stage.isStarted]
    | some i =>
      have worker : Session.worker? ⟨some f, state⟩ = some i := hw
      rw [stage_of_worker worker]
      cases state.isHeld i <;> simp [FolderWatch.isStarted, hw, Stage.isStarted]

theorem isHeld_of_stage {s : Session} : s.isHeld = true ↔ s.stage = .holding := by
  obtain ⟨watch, state⟩ := s
  cases watch with
  | none => simp [isHeld, Session.stage]
  | some f =>
    cases hw : f.worker with
    | none => simp [isHeld, Session.stage, FolderWatch.isHeld, hw]
    | some i => simp [isHeld, Session.stage, FolderWatch.isHeld, hw]

/-- The life of a watch, for every order of what is asked of it and of what all its workers do. -/
theorem lifecycle (folder : String) (settings : Settings) (sharing : Sharing)
    (connector : Nat → Attempt) (es : List Event) :
    let opened := Session.opened folder settings sharing connector
    Lifecycle sharing folder (opened.run es) (opened.chronicle es) := by
  intro opened
  obtain ⟨-, c⟩ := course_opened folder settings sharing connector es
  obtain ⟨starts, started, positive⟩ := counted_course c
  obtain ⟨last, acquires⟩ := lockCalls_course c
  obtain ⟨once, -, failing⟩ := failing_course c
  have lawful := lawful_course c
  refine ⟨lawful, ?_, ?_, ?_, ?_, once, silent_of_lawful lawful⟩
  · rw [isStarted_stage, started]
  · rw [acquires, starts]
  · rw [isHeld_of_stage]
    constructor
    · intro holding
      have started : (opened.run es).stage.isStarted = true := by
        rw [holding]
        rfl
      obtain ⟨i, hi⟩ := Nat.exists_eq_add_one.mpr (positive started)
      exact ⟨i, (present_course c).mpr ⟨started, hi⟩, (failing i hi started).mpr holding⟩
    · rintro ⟨i, present, none⟩
      obtain ⟨started, hi⟩ := (present_course c).mp present
      exact (failing i hi started).mp none
  · rw [last, lastCall_acquire, isHeld_of_stage]
    constructor
    · rintro ⟨visible, -, holding⟩
      exact ⟨visible, holding⟩
    · rintro ⟨visible, holding⟩
      refine ⟨visible, positive ?_, holding⟩
      rw [holding]
      rfl

/-- A worker that nothing could kill goes on after a second start, and nothing is seen of it. -/
example :
    chronicle [.demand .start, .step 0, .demand .stop, .demand .start, .step 0, .step 1, .step 1]
      (.opened "INBOX" {} .each fun _ => .failure .hostName) =
      [.demanded .start (.ok ()), .signal none (.lock .acquire),
        .demanded .stop (.ok ()), .signal none (.lock .release),
        .demanded .start (.ok ()), .signal none (.lock .acquire),
        .signal (some 1) (.lock .release), .signal (some 1) (.failed "INBOX" .hostName)] := by
  rfl

end Session
end MailClient.Watch
