import MailClient.Proofs.Wire.Patience
import MailClient.Proofs.Wire.Writing

/-! A stream to a peer that has all that it says ready, and takes all that it is told. -/
namespace MailClient.Wire.Stream

variable {σ ε α : Type}

structure Offers (bytes : Bytes) (s : Stream) : Prop where
  inbox : ∃ buffer pieces, s.inbox = .ofPieces buffer pieces ∧ buffer ++ pieces.flatten = bytes
  outlet : s.outlet.IsOpen

theorem offers_start (pieces : List Bytes) :
    (start (pieces.map .data) .unlimited).Offers pieces.flatten where
  inbox := ⟨[], pieces, rfl, rfl⟩
  outlet := ⟨rfl, nofun⟩

/-- The peer has `heard` left to say, and with `said` it will have been told `total`. -/
structure Stands (total heard said : Bytes) (s : Stream) : Prop extends s.Offers heard where
  written : s.written ++ said = total

namespace Stands

variable {total heard said : Bytes} {s : Stream}

theorem write {bytes : Bytes} (h : s.Stands total heard (bytes ++ said)) (limit : Duration) :
    ∃ s', s.write bytes limit = (.all, s') ∧ s'.Stands total heard said := by
  obtain ⟨all, outlet⟩ := write_of_isOpen h.outlet bytes limit
  refine ⟨_, Prod.ext all rfl, ⟨?_, ?_⟩, ?_⟩
  · rw [inbox_write]
    exact h.inbox
  · rw [outlet]
    exact h.outlet
  · rw [written_of_write (Prod.ext all rfl), List.append_assoc]
    exact h.written

/-- What stands at the front is read, and the rest stays. -/
theorem read {f : Framing σ ε α} {a : α} {rest : Bytes} (h : s.Stands total heard said)
    (hf : f.Seamless) (hc : f.consume f.initial heard = .done a rest) (limit : Duration) :
    ∃ s', s.read f limit = (.item a, s') ∧ s'.Stands total rest said := by
  obtain ⟨buffer, pieces, hi, rfl⟩ := h.inbox
  obtain ⟨left, later, pulled, rfl⟩ := Inbox.pull_of_consume hf hc
  refine ⟨{ s with inbox := .ofPieces left later }, ?_, ⟨⟨left, later, rfl, rfl⟩, h.outlet⟩,
    h.written⟩
  unfold Stream.read
  rw [hi, pulled]

theorem wait (h : s.Stands total heard said) (span : Duration) :
    (s.wait span).Stands total heard said := ⟨⟨h.inbox, h.outlet⟩, h.written⟩

end Stands
end MailClient.Wire.Stream
