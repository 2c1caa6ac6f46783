import MailClient.Watch.Worker

/-! All workers with what they share: the clock, the wake lock, the connections to come and the
journal of what the outside sees. A step of one worker is atomic, and steps of different workers
may follow each other in any order. -/
namespace MailClient.Watch

inductive Signal where
  | lock (call : LockCall)
  | changed (folder : String) (event : Imap.Event)
  | failed (folder : String) (e : Imap.Error)

structure State where
  now : Duration
  lock : WakeLock
  connector : Nat → Attempt
  attempts : Nat
  /-- One for each start, also after its end. -/
  workers : List Worker
  /-- The workers that got a stream, in the order in which they got it. -/
  connected : List Nat
  journal : List Signal

namespace State

def initial (sharing : Sharing) (connector : Nat → Attempt) : State :=
  ⟨0, .free sharing, connector, 0, [], [], []⟩

def record (signals : List Signal) (s : State) : State :=
  { s with journal := s.journal ++ signals }

def setWorker (i : Nat) (w : Worker) (s : State) : State :=
  { s with workers := s.workers.set i w }

def release (h : Hold) (s : State) : State :=
  let (calls, _, lock) := h.release s.lock
  { s with lock := lock }.record (calls.map .lock)

def attempt (i : Nat) (s : State) : State :=
  let connected := match s.connector s.attempts with
    | .stream .. => s.connected ++ [i]
    | .failure _ | .never => s.connected
  { s with attempts := s.attempts + 1, connected := connected }

/-- What a worker does to the shared state when it carries its plan out. Only a worker that has
its hold reports, and a failure is reported after the hold has been given back. -/
def share (i : Nat) (w : Worker) (s : State) : State :=
  match w.plan with
  | .connect => s.attempt i
  | .report _ change =>
    if w.hold.held then s.record (change.toList.map (.changed w.folder)) else s
  | .fail e => if w.hold.held then (s.release w.hold).record [.failed w.folder e] else s
  | .wait | .rest => s

def step (i : Nat) (s : State) : State :=
  match s.workers[i]? with
  | none => s
  | some w => (s.share i w).setWorker i (w.next (s.connector s.attempts))

theorem workers_share (i : Nat) (w : Worker) (s : State) : (s.share i w).workers = s.workers := by
  unfold share
  split
  · rfl
  · split <;> rfl
  · split <;> rfl
  · rfl
  · rfl

theorem worker_step {i : Nat} {s : State} {w : Worker} (h : s.workers[i]? = some w) :
    (s.step i).workers[i]? = some (w.next (s.connector s.attempts)) := by
  have hi : i < (s.share i w).workers.length := by
    rw [workers_share]
    exact (List.getElem?_eq_some_iff.mp h).1
  unfold step
  rw [h]
  exact List.getElem?_set_self hi

def load (i : Nat) (s : State) : Nat × Nat :=
  match s.workers[i]? with
  | none => (0, 0)
  | some w => w.plan.load

/-- Lets worker `i` do what is due before `horizon`. -/
def advance (i : Nat) (horizon : Duration) (s : State) : State :=
  match h : s.workers[i]? with
  | none => s
  | some w =>
    if hw : w.isDue horizon then
      have : Prod.Lex (· < ·) (· < ·) ((s.step i).load i) (s.load i) := by
        have active : w.plan.isActive := by
          simp only [Worker.isDue, Bool.and_eq_true] at hw
          exact hw.1.2
        have less := Worker.less_next (s.connector s.attempts) active
        unfold load
        rw [worker_step h, h]
        exact less
      advance i horizon (s.step i)
    else s
termination_by s.load i
decreasing_by exact this

/-- Lets time pass. The workers act in the order of their starts; what is due at the end of the
span is left for later. -/
def sleep (span : Duration) (s : State) : State :=
  let horizon := s.now + span
  let s := (List.range s.workers.length).foldl (fun s i => s.advance i horizon) s
  { s with now := horizon }

def start (folder : String) (settings : Settings) (s : State) : State :=
  let (calls, hold, lock) := Hold.loose.acquire s.lock
  let w := Worker.hired folder settings hold s.now
  { s with lock := lock, workers := s.workers ++ [w] }.record (calls.map .lock)

/-- Stops worker `i` at once, and gives its hold back if it still has it. -/
def stop (i : Nat) (s : State) : State :=
  match s.workers[i]? with
  | none => s
  | some w => (s.release w.hold).setWorker i { w with hold := .loose, stopped := some s.now }

def isHeld (i : Nat) (s : State) : Bool := s.workers[i]?.any (·.hold.held)

def sent (s : State) : List (List Wire.Sent) :=
  s.connected.map fun i => ((s.workers[i]?).map (·.sentBefore s.now)).getD []

end State
end MailClient.Watch
