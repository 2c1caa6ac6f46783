/-! Steps over a state that may fail. The state a step reached is kept when it fails. -/
namespace MailClient

def Action (σ ε α : Type) : Type := σ → Except ε α × σ

namespace Action

variable {σ ε ε₁ ε₂ α β : Type}

def run (m : Action σ ε α) (s : σ) : Except ε α × σ := m s

def pure (a : α) : Action σ ε α := fun s => (.ok a, s)

def fail (e : ε) : Action σ ε α := fun s => (.error e, s)

def bind (m : Action σ ε α) (f : α → Action σ ε β) : Action σ ε β := fun s =>
  match m s with
  | (.ok a, s') => f a s'
  | (.error e, s') => (.error e, s')

instance : Monad (Action σ ε) where
  pure := Action.pure
  bind := Action.bind

def attempt (m : Action σ ε₁ α) : Action σ ε₂ (Except ε₁ α) := fun s =>
  let (r, s') := m s
  (.ok r, s')

def get : Action σ ε σ := fun s => (.ok s, s)

def modify (f : σ → σ) : Action σ ε Unit := fun s => (.ok (), f s)

def mapError (f : ε₁ → ε₂) (m : Action σ ε₁ α) : Action σ ε₂ α := fun s =>
  match m s with
  | (.ok a, s') => (.ok a, s')
  | (.error e, s') => (.error (f e), s')

end Action
end MailClient
