import Mathlib.Tactic.SplitIfs
import MailClient.Wire.Stream

/-! What has gone out on a stream. -/
namespace MailClient.Wire.Stream

variable {bytes : Bytes} {limit : Duration} {s s' : Stream}

theorem length_of_accept {o : Outlet} {length : Nat} (h : (o.accept length).2.1 = none) :
    (o.accept length).1 = length := by
  unfold Outlet.accept at h ⊢
  dsimp only at h ⊢
  split_ifs at h ⊢ with h₀
  · exact h₀.symm
  · rfl

/-- A write is complete only if all of its octets were accepted. -/
theorem accept_of_write (h : (s.write bytes limit).1 = .all) :
    (s.outlet.accept bytes.length).1 = bytes.length := by
  refine length_of_accept ?_
  unfold write at h
  dsimp only at h
  split at h
  next hn => exact hn
  all_goals cases h

theorem length_lt_of_accept {o : Outlet} {length : Nat} (h : (o.accept length).2.1 ≠ none) :
    (o.accept length).1 < length := by
  unfold Outlet.accept at h ⊢
  dsimp only at h ⊢
  split_ifs at h ⊢ with empty full blocked fits
  · exact absurd rfl h
  · exact Nat.pos_of_ne_zero empty
  · exact Nat.pos_of_ne_zero empty
  · exact absurd rfl h
  · cases room : o.room with
    | none => simp [room] at fits
    | some n => simpa [room] using fits

/-- The octets that were accepted count as sent, even where the write fails. -/
theorem sent_write (bytes : Bytes) (limit : Duration) (s : Stream) :
    (s.write bytes limit).2.sent.flatMap Sent.bytes =
      s.sent.flatMap Sent.bytes ++ bytes.take (s.outlet.accept bytes.length).1 := by
  have accepted : (s.write bytes limit).2.sent =
      if (s.outlet.accept bytes.length).1 = 0 ∧ (s.outlet.accept bytes.length).2.1.isSome = true
      then s.sent
      else s.sent ++ [⟨s.clock, bytes.take (s.outlet.accept bytes.length).1⟩] := by
    unfold write
    dsimp only
    split <;> rfl
  rw [accepted]
  split
  next h => simp [h.1]
  · simp

def written (s : Stream) : Bytes := s.sent.flatMap Sent.bytes

theorem written_write (bytes : Bytes) (limit : Duration) (s : Stream) :
    ∃ part, part <+: bytes ∧ (s.write bytes limit).2.written = s.written ++ part :=
  ⟨_, List.take_prefix _ _, sent_write bytes limit s⟩

theorem written_of_write (h : s.write bytes limit = (.all, s')) :
    s'.written = s.written ++ bytes := by
  have sent := sent_write bytes limit s
  rw [accept_of_write (congrArg Prod.fst h), List.take_length, h] at sent
  exact sent

/-- Of a write that is not complete some octets are missing. -/
theorem written_of_refused (h : (s.write bytes limit).1 ≠ .all) : ∃ part, part <+: bytes ∧
    part ≠ bytes ∧ (s.write bytes limit).2.written = s.written ++ part := by
  refine ⟨_, List.take_prefix _ _, ?_, sent_write bytes limit s⟩
  have refused : (s.outlet.accept bytes.length).2.1 ≠ none := by
    intro none
    unfold write at h
    dsimp only at h
    rw [none] at h
    exact h rfl
  have short := length_lt_of_accept refused
  intro whole
  have same := congrArg List.length whole
  rw [List.length_take] at same
  omega

/-- A write has nothing to do with what the peer sends. -/
theorem inbox_write (bytes : Bytes) (limit : Duration) (s : Stream) :
    (s.write bytes limit).2.inbox = s.inbox := by
  unfold write
  dsimp only
  split <;> rfl

end MailClient.Wire.Stream
