import MailClient.Proofs.Watch.Holds
import MailClient.Watch.FolderWatch

/-! A watch together with the workers of all its starts. What is asked of the watch and what the
workers do may follow each other in any order. Also the worker of a start that has ended may go on,
as it does where nothing can kill it. -/
namespace MailClient.Watch

open Imap (Error)

inductive Demand where
  | start
  | stop
  deriving DecidableEq, Repr

def Demand.meet : Demand → Action (FolderWatch × State) Error Unit
  | .start => FolderWatch.start
  | .stop => FolderWatch.stop

structure Session where
  /-- There is none after it has been dropped. -/
  watch : Option FolderWatch
  state : State

/-- What the outside sees of a session. A signal is given by a worker, or by the session itself. -/
inductive Mark where
  | demanded (d : Demand) (r : Except Error Unit)
  | dropped
  | signal (worker : Option Nat) (s : Signal)

namespace Session

inductive Event where
  | demand (d : Demand)
  | drop
  /-- Worker `i` takes a step, be its start over or not. -/
  | step (i : Nat)
  | pass (span : Duration)

def opened (folder : String) (settings : Settings) (sharing : Sharing)
    (connector : Nat → Attempt) : Session :=
  ⟨some (.idle folder settings), .initial sharing connector⟩

def perform : Event → Session → Session
  | .demand d, s =>
    match s.watch with
    | none => s
    | some f =>
      let (_, f, state) := d.meet (f, s.state)
      ⟨some f, state⟩
  | .drop, s =>
    match s.watch with
    | none => s
    | some f => ⟨none, f.discard s.state⟩
  | .step i, s => { s with state := s.state.step i }
  | .pass span, s => { s with state := s.state.perform (.pass span) }

def run : List Event → Session → Session
  | [], s => s
  | e :: es, s => run es (s.perform e)

/-- What is asked, with its result. Nothing can be asked of a watch that has been dropped. -/
def asked : Event → Session → List Mark
  | .demand d, s => s.watch.toList.map fun f => .demanded d (d.meet (f, s.state)).1
  | .drop, s => s.watch.toList.map fun _ => .dropped
  | .step _, _ | .pass _, _ => []

def Event.worker? : Event → Option Nat
  | .step i => some i
  | .demand _ | .drop | .pass _ => none

def marks (e : Event) (s : Session) : List Mark :=
  s.asked e ++ ((s.perform e).state.journal.drop s.state.journal.length).map (.signal e.worker?)

def chronicle : List Event → Session → List Mark
  | [], _ => []
  | e :: es, s => s.marks e ++ chronicle es (s.perform e)

def worker? (s : Session) : Option Nat := s.watch.bind (·.worker)

def isHeld (s : Session) : Bool := s.watch.any (·.isHeld s.state)

inductive Stage where
  | off
  /-- It is started, and its worker has the hold. -/
  | holding
  /-- It is started, but its worker has failed. -/
  | lost
  | gone
  deriving DecidableEq, Repr

def Stage.isStarted : Stage → Bool
  | .holding | .lost => true
  | .off | .gone => false

def stage (s : Session) : Stage :=
  match s.watch with
  | none => .gone
  | some f =>
    match f.worker with
    | none => .off
    | some i => if s.state.isHeld i then .holding else .lost

end Session

def seen (sharing : Sharing) (worker : Option Nat) (call : LockCall) : List Mark :=
  if sharing = .unlocked then [] else [.signal worker (.lock call)]

namespace Session

inductive Turn (sharing : Sharing) (folder : String) :
    Nat → Stage → List Mark → Nat → Stage → Prop where
  | quiet {n stage} : Turn sharing folder n stage [] n stage
  | start {n} : Turn sharing folder n .off
      (.demanded .start (.ok ()) :: seen sharing none .acquire) (n + 1) .holding
  | startAgain {n stage} : stage.isStarted = true → Turn sharing folder n stage
      [.demanded .start (.error (.misuse (.watchStarted folder)))] n stage
  | stop {n} : Turn sharing folder n .holding
      (.demanded .stop (.ok ()) :: seen sharing none .release) n .off
  | stopLost {n} : Turn sharing folder n .lost [.demanded .stop (.ok ())] n .off
  | stopAgain {n} : Turn sharing folder n .off
      [.demanded .stop (.error (.misuse (.watchNotStarted folder)))] n .off
  | drop {n} : Turn sharing folder n .holding (.dropped :: seen sharing none .release) n .gone
  | dropLoose {n stage} : stage = .off ∨ stage = .lost →
      Turn sharing folder n stage [.dropped] n .gone
  | change {i name event} : Turn sharing folder (i + 1) .holding
      [.signal (some i) (.changed name event)] (i + 1) .holding
  | fail {i name e} : Turn sharing folder (i + 1) .holding
      (seen sharing (some i) .release ++ [.signal (some i) (.failed name e)]) (i + 1) .lost

/-- Of all workers only the one of the present start may have a hold, and the lock knows of it. -/
structure Sound (sharing : Sharing) (folder : String) (s : Session) : Prop where
  folder : ∀ f, s.watch = some f → f.folder = folder
  latest : ∀ i, s.worker? = some i → s.state.workers.length = i + 1
  alone : ∀ i, s.state.isHeld i = true → s.worker? = some i
  lock : s.state.lock =
    if s.isHeld then (WakeLock.free sharing).acquire.2 else .free sharing

structure Proceeds (sharing : Sharing) (folder : String) (s : Session) (e : Event) : Prop where
  sound : Sound sharing folder (s.perform e)
  turn : Turn sharing folder s.state.workers.length s.stage (s.marks e)
    (s.perform e).state.workers.length (s.perform e).stage

variable {sharing : Sharing} {folder : String} {s : Session} {i : Nat} {f : FolderWatch}

theorem acquire_free (worker : Option Nat) :
    ((WakeLock.free sharing).acquire.1.map .lock).map (.signal worker) =
      seen sharing worker .acquire := by
  cases sharing <;> rfl

theorem release_taken (worker : Option Nat) :
    ((WakeLock.free sharing).acquire.2.release.1.map .lock).map (.signal worker) =
      seen sharing worker .release := by
  cases sharing <;> rfl

theorem free_release_taken :
    (WakeLock.free sharing).acquire.2.release.2 = .free sharing := by
  cases sharing <;> rfl

theorem marks_of_change {e : Event} {signals : List Signal} {lock : WakeLock} {held : Nat → Bool}
    (h : State.Change s.state (s.perform e).state signals lock held) :
    s.marks e = s.asked e ++ signals.map (.signal e.worker?) := by
  unfold marks
  rw [h.journal, List.drop_left]

theorem isHeld_of_worker? (s : Session) : s.isHeld = s.worker?.any s.state.isHeld := by
  unfold isHeld worker?
  cases s.watch <;> rfl

namespace Sound

theorem opened (folder : String) (settings : Settings) (sharing : Sharing)
    (connector : Nat → Attempt) :
    Sound sharing folder (.opened folder settings sharing connector) where
  folder f hf := by
    cases hf
    rfl
  latest i hi := by cases hi
  alone i hi := by cases hi
  lock := rfl

/-- Where no worker has a hold, the lock is free. -/
theorem of_loose (hfolder : ∀ f, s.watch = some f → f.folder = folder)
    (latest : ∀ i, s.worker? = some i → s.state.workers.length = i + 1)
    (loose : ∀ i, s.state.isHeld i = false) (lock : s.state.lock = .free sharing) :
    Sound sharing folder s where
  folder := hfolder
  latest := latest
  alone i hi := by
    rw [loose] at hi
    cases hi
  lock := by
    have no : s.isHeld = false := by
      rw [isHeld_of_worker?]
      cases s.worker? with
      | none => rfl
      | some i => exact loose i
    rw [no, lock]
    rfl

theorem loose_of_not_held (h : Sound sharing folder s) (no : s.isHeld = false) (j : Nat) :
    s.state.isHeld j = false := by
  cases hj : s.state.isHeld j with
  | false => rfl
  | true =>
    rw [isHeld_of_worker?, h.alone j hj, Option.any_some, hj] at no
    cases no

end Sound

theorem stage_of_worker (hi : s.worker? = some i) :
    s.stage = if s.state.isHeld i then .holding else .lost := by
  unfold stage
  obtain ⟨f, hf, hw⟩ := Option.bind_eq_some_iff.mp hi
  rw [hf]
  dsimp only
  rw [hw]

theorem stage_congr {s' : Session} (hw : s'.watch = s.watch)
    (held : ∀ i, s'.state.isHeld i = s.state.isHeld i) : s'.stage = s.stage := by
  unfold stage
  rw [hw]
  cases s.watch with
  | none => rfl
  | some f =>
    dsimp only
    cases f.worker with
    | none => rfl
    | some i =>
      dsimp only
      rw [held]

namespace Sound

theorem congr {s' : Session} (h : Sound sharing folder s) (hw : s'.watch = s.watch)
    (length : s'.state.workers.length = s.state.workers.length)
    (lock : s'.state.lock = s.state.lock)
    (held : ∀ i, s'.state.isHeld i = s.state.isHeld i) : Sound sharing folder s' := by
  have worker : s'.worker? = s.worker? := by
    unfold worker?
    rw [hw]
  constructor
  · rw [hw]
    exact h.folder
  · rw [worker, length]
    exact h.latest
  · intro i hi
    rw [worker]
    rw [held] at hi
    exact h.alone i hi
  · rw [lock, h.lock, isHeld_of_worker?, isHeld_of_worker?, worker, funext held]

/-- A worker that has its hold is the one of the present start, and the lock is taken. -/
theorem of_held (h : Sound sharing folder s) (hi : s.state.isHeld i = true) :
    s.stage = .holding ∧ s.state.lock = (WakeLock.free sharing).acquire.2 ∧
      ∀ j, (if i = j then false else s.state.isHeld j) = false := by
  have worker := h.alone i hi
  refine ⟨?_, ?_, ?_⟩
  · rw [stage_of_worker worker, hi]
    rfl
  · rw [h.lock, isHeld_of_worker?, worker, Option.any_some, hi]
    rfl
  · intro j
    by_cases hj : i = j
    · rw [if_pos hj]
    · rw [if_neg hj]
      cases other : s.state.isHeld j with
      | false => rfl
      | true =>
        rw [h.alone j other] at worker
        cases worker
        exact absurd rfl hj

/-- Without the hold of the present start, the lock is free. -/
theorem of_not_held (h : Sound sharing folder s) (hi : s.worker? = some i)
    (no : s.state.isHeld i = false) : s.stage = .lost ∧ s.state.lock = .free sharing ∧
      ∀ j, s.state.isHeld j = false := by
  have held : s.isHeld = false := by
    rw [isHeld_of_worker?, hi, Option.any_some, no]
  refine ⟨?_, ?_, h.loose_of_not_held held⟩
  · rw [stage_of_worker hi, no]
    rfl
  · rw [h.lock, held]
    rfl

/-- What it does to end the present start. -/
theorem change_stop (h : Sound sharing folder s) (hi : s.worker? = some i) :
    ∃ signals, State.Change s.state (s.state.stop i) signals (.free sharing) (fun _ => false) ∧
      (s.stage = .holding ∧ signals.map (.signal none) = seen sharing none .release ∨
        s.stage = .lost ∧ signals = []) := by
  cases held : s.state.isHeld i with
  | true =>
    obtain ⟨stage, lock, others⟩ := h.of_held held
    have c := State.change_stop held
    rw [lock, free_release_taken, funext others] at c
    exact ⟨_, c, .inl ⟨stage, release_taken none⟩⟩
  | false =>
    obtain ⟨stage, lock, others⟩ := h.of_not_held hi held
    have c := State.change_stop_loose held
    rw [lock, funext others] at c
    exact ⟨_, c, .inr ⟨stage, rfl⟩⟩

/-- An event that changes neither the watch nor any hold. -/
theorem still (h : Sound sharing folder s) {e : Event} {signals : List Signal}
    (watch : (s.perform e).watch = s.watch)
    (length : (s.perform e).state.workers.length = s.state.workers.length)
    (c : State.Change s.state (s.perform e).state signals s.state.lock s.state.isHeld)
    (turn : Turn sharing folder s.state.workers.length s.stage
      (s.asked e ++ signals.map (.signal e.worker?)) s.state.workers.length s.stage) :
    Proceeds sharing folder s e := by
  constructor
  · exact h.congr watch length c.lock c.held
  · rw [length, marks_of_change c, stage_congr watch c.held]
    exact turn

theorem unchanged (h : Sound sharing folder s) {e : Event} (same : s.perform e = s)
    (turn : Turn sharing folder s.state.workers.length s.stage (s.asked e)
      s.state.workers.length s.stage) : Proceeds sharing folder s e := by
  apply h.still
  · rw [same]
  · rw [same]
  · rw [same]
    exact ⟨(List.append_nil _).symm, rfl, fun _ => rfl⟩
  · rw [List.map_nil, List.append_nil]
    exact turn

theorem step (h : Sound sharing folder s) (i : Nat) : Proceeds sharing folder s (.step i) := by
  have length : (s.perform (.step i)).state.workers.length = s.state.workers.length :=
    State.length_step i s.state
  rcases s.state.change_step i with c | ⟨hi, ⟨name, event, c⟩ | ⟨name, e, c⟩⟩
  · exact h.still rfl length c .quiet
  · apply h.still rfl length c
    rw [(h.of_held hi).1, h.latest i (h.alone i hi)]
    exact .change
  · obtain ⟨stage, lock, others⟩ := h.of_held hi
    have worker := h.alone i hi
    rw [lock, free_release_taken, funext others] at c
    have loose : (s.perform (.step i)).state.isHeld i = false := c.held i
    have marks : s.marks (.step i) =
        seen sharing (some i) .release ++ [.signal (some i) (.failed name e)] := by
      rw [marks_of_change c, List.map_append, ← release_taken]
      rfl
    constructor
    · refine of_loose (s := s.perform (.step i)) h.folder ?_ c.held c.lock
      intro j hj
      rw [length]
      exact h.latest j hj
    · rw [length, marks, stage, h.latest i worker,
        stage_of_worker (s := s.perform (.step i)) worker, loose]
      exact .fail

theorem pass (h : Sound sharing folder s) (span : Duration) :
    Proceeds sharing folder s (.pass span) :=
  h.still rfl rfl ⟨(List.append_nil _).symm, rfl, fun _ => rfl⟩ .quiet

theorem start (h : Sound sharing folder s) : Proceeds sharing folder s (.demand .start) := by
  obtain ⟨watch, state⟩ := s
  cases watch with
  | none => exact h.unchanged rfl .quiet
  | some f =>
    obtain ⟨name, settings, worker⟩ := f
    obtain rfl : name = folder := h.folder _ rfl
    cases worker with
    | some i =>
      apply h.unchanged rfl
      apply Turn.startAgain
      rw [stage_of_worker (i := i) rfl]
      split <;> rfl
    | none =>
      have loose : ∀ j, state.isHeld j = false := h.loose_of_not_held rfl
      have lock : state.lock = .free sharing := h.lock
      have c := state.change_start name settings
      rw [lock] at c
      have marks : Session.marks (.demand .start) ⟨some ⟨name, settings, none⟩, state⟩ =
          .demanded .start (.ok ()) :: seen sharing none .acquire := by
        rw [marks_of_change c, acquire_free]
        rfl
      have after : Session.perform (.demand .start) ⟨some ⟨name, settings, none⟩, state⟩ =
          ⟨some ⟨name, settings, some state.workers.length⟩, state.start name settings⟩ := rfl
      have held : (state.start name settings).isHeld state.workers.length = true := by
        rw [c.held, beq_self_eq_true, Bool.or_true]
      have length : (state.start name settings).workers.length = state.workers.length + 1 :=
        List.length_append
      constructor
      · rw [after]
        constructor
        · intro f hf
          cases hf
          rfl
        · intro i hi
          cases hi
          exact length
        -- No worker had a hold before, so it can only be the new one.
        · intro i hi
          have hi := (c.held i).symm.trans hi
          rw [loose, Bool.false_or, beq_iff_eq] at hi
          rw [hi]
          rfl
        · rw [isHeld_of_worker?, show worker? _ = some state.workers.length from rfl,
            Option.any_some, held]
          exact c.lock
      · have stage : (Session.perform (.demand .start)
            ⟨some ⟨name, settings, none⟩, state⟩).stage = .holding := by
          rw [after, stage_of_worker (i := state.workers.length) rfl, held]
          rfl
        rw [marks, stage, after, length]
        exact .start

/-- What ends the present start gives the lock back, unless the worker has done it. -/
theorem ends (h : Sound sharing folder s) (hi : s.worker? = some i) {e : Event}
    (own : e.worker? = none) (state : (s.perform e).state = s.state.stop i)
    (named : ∀ f, (s.perform e).watch = some f → f.folder = folder)
    (off : (s.perform e).worker? = none) :
    Sound sharing folder (s.perform e) ∧
    (s.perform e).state.workers.length = s.state.workers.length ∧
    (s.stage = .holding ∧ s.marks e = s.asked e ++ seen sharing none .release ∨
      s.stage = .lost ∧ s.marks e = s.asked e) := by
  obtain ⟨signals, c, how⟩ := h.change_stop hi
  rw [← state] at c
  refine ⟨?_, ?_, ?_⟩
  · refine of_loose named ?_ c.held c.lock
    intro j hj
    rw [off] at hj
    cases hj
  · rw [state, State.length_stop]
  · rw [marks_of_change c, own]
    rcases how with ⟨stage, released⟩ | ⟨stage, rfl⟩
    · rw [released]
      exact .inl ⟨stage, rfl⟩
    · exact .inr ⟨stage, List.append_nil _⟩

theorem stop (h : Sound sharing folder s) : Proceeds sharing folder s (.demand .stop) := by
  obtain ⟨watch, state⟩ := s
  cases watch with
  | none => exact h.unchanged rfl .quiet
  | some f =>
    obtain ⟨name, settings, worker⟩ := f
    obtain rfl : name = folder := h.folder _ rfl
    cases worker with
    | none => exact h.unchanged rfl .stopAgain
    | some i =>
      obtain ⟨sound, length, how⟩ := h.ends (e := .demand .stop) (i := i) rfl rfl rfl
        (by rintro f ⟨⟩; rfl) rfl
      refine ⟨sound, ?_⟩
      rw [length]
      rcases how with ⟨stage, marks⟩ | ⟨stage, marks⟩
      · rw [stage, marks]
        exact .stop
      · rw [stage, marks]
        exact .stopLost

theorem drop (h : Sound sharing folder s) : Proceeds sharing folder s .drop := by
  obtain ⟨watch, state⟩ := s
  cases watch with
  | none => exact h.unchanged rfl .quiet
  | some f =>
    obtain ⟨name, settings, worker⟩ := f
    cases worker with
    | none =>
      have same : State.Change state state [] state.lock state.isHeld :=
        ⟨(List.append_nil _).symm, rfl, fun _ => rfl⟩
      constructor
      · exact of_loose (by rintro f ⟨⟩) (by rintro i ⟨⟩) (h.loose_of_not_held rfl) h.lock
      · rw [marks_of_change (e := .drop) same]
        exact .dropLoose (.inl rfl)
    | some i =>
      obtain ⟨sound, length, how⟩ := h.ends (e := .drop) (i := i) rfl rfl rfl (by rintro f ⟨⟩) rfl
      refine ⟨sound, ?_⟩
      rw [length]
      rcases how with ⟨stage, marks⟩ | ⟨stage, marks⟩
      · rw [stage, marks]
        exact .drop
      · rw [stage, marks]
        exact .dropLoose (.inr rfl)

theorem proceeds (h : Sound sharing folder s) (e : Event) : Proceeds sharing folder s e := by
  cases e with
  | demand d =>
    cases d with
    | start => exact h.start
    | stop => exact h.stop
  | drop => exact h.drop
  | step i => exact h.step i
  | pass span => exact h.pass span

end Sound

/-! ### Courses -/

inductive Course (sharing : Sharing) (folder : String) : Nat → Stage → List Mark → Prop where
  | begin : Course sharing folder 0 .off []
  | turn {n stage marks new n' stage'} : Course sharing folder n stage marks →
      Turn sharing folder n stage new n' stage' → Course sharing folder n' stage' (marks ++ new)

theorem course_run {marks : List Mark} (h : Sound sharing folder s)
    (c : Course sharing folder s.state.workers.length s.stage marks) (es : List Event) :
    Sound sharing folder (s.run es) ∧
    Course sharing folder (s.run es).state.workers.length (s.run es).stage
      (marks ++ s.chronicle es) := by
  induction es generalizing s marks with
  | nil =>
    refine ⟨h, ?_⟩
    rw [chronicle, List.append_nil]
    exact c
  | cons e es ih =>
    obtain ⟨sound, turn⟩ := h.proceeds e
    rw [chronicle, ← List.append_assoc]
    exact ih sound (c.turn turn)

theorem course_opened (folder : String) (settings : Settings) (sharing : Sharing)
    (connector : Nat → Attempt) (es : List Event) :
    let s := run es (.opened folder settings sharing connector)
    Sound sharing folder s ∧ Course sharing folder s.state.workers.length s.stage
      (chronicle es (.opened folder settings sharing connector)) :=
  course_run (.opened folder settings sharing connector) .begin es

end Session
end MailClient.Watch
