import MailClient.Sasl.Credentials

/-! Which candidates to try against the schemes that a server offers, and in which order. -/
namespace MailClient.Sasl

abbrev Strategy := String → List Challenge → List Candidate

namespace Strategy

/-- The candidates whose scheme is offered, as configured. -/
def inOrder (candidates : List Candidate) : Strategy := fun _ offered =>
  candidates.filter fun candidate => offered.any fun c => c.scheme == candidate.scheme

/-- The candidates whose scheme is offered, the strongest first. Equal schemes keep the
configured order. -/
def strongestFirst (candidates : List Candidate) : Strategy := fun host offered =>
  (inOrder candidates host offered).mergeSort fun a b => b.scheme.strength ≤ a.scheme.strength

end Strategy
end MailClient.Sasl
