import MailClient.Duration

/-! A pool of timed tasks. Each is done some time after it was given to the pool, unless the pool
is shut down before. -/
namespace MailClient.Watch

structure Task where
  span : Duration
  due : Duration
  deriving DecidableEq, Repr

structure TaskPool where
  now : Duration
  active : List Task
  finished : List Task
  deriving DecidableEq, Repr

namespace TaskPool

def empty : TaskPool := ⟨0, [], []⟩

def spawn (span : Duration) (p : TaskPool) : TaskPool :=
  { p with active := p.active ++ [⟨span, p.now + span⟩] }

/-- Lets time pass. What is due at the end of the span is left for later. -/
def sleep (span : Duration) (p : TaskPool) : TaskPool :=
  let horizon := p.now + span
  let (due, active) := p.active.partition fun t => t.due < horizon
  ⟨horizon, active, p.finished ++ due.mergeSort fun a b => a.due ≤ b.due⟩

def shutDown (p : TaskPool) : TaskPool := { p with active := [] }

end TaskPool
end MailClient.Watch
