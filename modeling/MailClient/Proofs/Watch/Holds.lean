import MailClient.Proofs.Watch.Run

/-! Who has a hold on the lock: what starts, stops and steps of workers do to holds, to the lock and
to the journal. -/
namespace MailClient.Watch

open Imap (Error)

namespace Worker

variable {w : Worker}

theorem hold_idle (c : Imap.Connection) (w : Worker) : (w.idle c).hold = w.hold := by
  unfold idle
  split
  · rfl
  · split
    · rfl
    · dsimp only
      split
      · rfl
      · split <;> rfl

theorem hold_watch (c : Imap.Connection) (w : Worker) : (w.watch c).hold = w.hold := by
  unfold watch
  split
  · rfl
  · split
    · rfl
    · dsimp only
      split
      · rfl
      · exact hold_idle _ w

theorem hold_receive (a : Attempt) (w : Worker) : (w.receive a).hold = w.hold := by
  unfold receive
  split
  · rfl
  · rfl
  · split
    · rfl
    · exact hold_watch _ w

/-- A worker gives its hold back when it fails, and at no other step. -/
theorem hold_next (a : Attempt) (h : ∀ e, w.plan ≠ .fail e) : (w.next a).hold = w.hold := by
  unfold next
  split
  · exact hold_receive a w
  · split
    · exact hold_idle _ w
    · rfl
  next e hp => exact absurd hp (h e)
  · rfl
  · rfl

theorem hold_next_fail (a : Attempt) {e : Error} (h : w.plan = .fail e) :
    (w.next a).hold = .loose := by
  unfold next
  rw [h]

end Worker

namespace State

variable {s s' : State} {i : Nat} {w : Worker}

/-- What becomes of all that concerns a session: the signals that come in, the lock, and which
workers have their holds. -/
structure Change (s s' : State) (signals : List Signal) (lock : WakeLock) (held : Nat → Bool) :
    Prop where
  journal : s'.journal = s.journal ++ signals
  lock : s'.lock = lock
  held : ∀ i, s'.isHeld i = held i

theorem isHeld_of (h : s.workers[i]? = some w) : s.isHeld i = w.hold.held := by
  unfold isHeld
  rw [h, Option.any_some]

theorem isHeld_absent (h : s.workers[i]? = none) : s.isHeld i = false := by
  unfold isHeld
  rw [h, Option.any_none]

theorem change_start (folder : String) (settings : Settings) (s : State) :
    Change s (s.start folder settings) (s.lock.acquire.1.map .lock) s.lock.acquire.2
      fun i => s.isHeld i || i == s.workers.length := by
  constructor
  · rfl
  · rfl
  · intro i
    have workers : (s.start folder settings).workers =
        s.workers ++ [.hired folder settings ⟨true⟩ s.now] := rfl
    unfold isHeld
    rw [workers]
    rcases Nat.lt_trichotomy i s.workers.length with hi | rfl | hi
    · rw [List.getElem?_append_left hi]
      simp [Nat.ne_of_lt hi]
    · rw [List.getElem?_concat_length]
      simp [Worker.hired]
    · rw [List.getElem?_eq_none (by rw [List.length_append]; exact hi)]
      simp [Nat.le_of_lt hi, Nat.ne_of_gt hi]

theorem isHeld_stop (i j : Nat) (s : State) :
    (s.stop i).isHeld j = if i = j then false else s.isHeld j := by
  cases hw : s.workers[j]? with
  | none =>
    rw [isHeld_absent hw, ite_self]
    rcases absent_perform hw (.stop i) with gone | ⟨_, _, _, other, -⟩
    · exact isHeld_absent gone
    · cases other
  | some w =>
    rw [isHeld_of (worker_stop hw i), isHeld_of hw]
    by_cases hi : i = j
    · rw [if_pos hi, if_pos hi]
      rfl
    · rw [if_neg hi, if_neg hi]

theorem isHeld_step (hw : s.workers[i]? = some w) (j : Nat) : (s.step i).isHeld j =
    if i = j then (w.next (s.connector s.attempts)).hold.held else s.isHeld j := by
  cases hj : s.workers[j]? with
  | none =>
    have hi : i ≠ j := by
      rintro rfl
      rw [hw] at hj
      cases hj
    rw [if_neg hi, isHeld_absent hj]
    rcases absent_perform hj (.step i) with gone | ⟨_, _, _, other, -⟩
    · exact isHeld_absent gone
    · cases other
  | some w' =>
    rw [isHeld_of (worker_step_any hj i), isHeld_of hj]
    by_cases hi : i = j
    · subst hi
      rw [hw] at hj
      cases hj
      rw [if_pos rfl, if_pos rfl]
    · rw [if_neg hi, if_neg hi]

theorem change_stop (h : s.isHeld i = true) :
    Change s (s.stop i) (s.lock.release.1.map .lock) s.lock.release.2
      fun j => if i = j then false else s.isHeld j := by
  cases hw : s.workers[i]? with
  | none =>
    rw [isHeld_absent hw] at h
    cases h
  | some w =>
    rw [isHeld_of hw] at h
    refine ⟨?_, ?_, fun j => isHeld_stop i j s⟩
    · simp [stop, hw, release, Hold.release, h, setWorker, record]
    · simp [stop, hw, release, Hold.release, h, setWorker, record]

theorem change_stop_loose (h : s.isHeld i = false) :
    Change s (s.stop i) [] s.lock s.isHeld := by
  have held : ∀ j, (s.stop i).isHeld j = s.isHeld j := by
    intro j
    rw [isHeld_stop]
    by_cases hi : i = j
    · rw [if_pos hi, ← hi, h]
    · rw [if_neg hi]
  cases hw : s.workers[i]? with
  | none =>
    have same : s.stop i = s := by
      unfold stop
      rw [hw]
    exact ⟨by simp [same], by rw [same], held⟩
  | some w =>
    rw [isHeld_of hw] at h
    refine ⟨?_, ?_, held⟩
    · simp [stop, hw, release, Hold.release, h, setWorker, record]
    · simp [stop, hw, release, Hold.release, h, setWorker, record]

/-- A worker that does not fail keeps its hold, if it has it. -/
theorem held_step (hw : s.workers[i]? = some w) (h : ∀ e, w.plan ≠ .fail e) (j : Nat) :
    (s.step i).isHeld j = s.isHeld j := by
  rw [isHeld_step hw, Worker.hold_next _ h, ← isHeld_of hw]
  by_cases hi : i = j
  · rw [if_pos hi, hi]
  · rw [if_neg hi]

/-- A step signals and changes the lock as its worker does with what is shared. -/
theorem change_of_share {signals : List Signal} {lock : WakeLock} {held : Nat → Bool}
    (hw : s.workers[i]? = some w) (journal : (s.share i w).journal = s.journal ++ signals)
    (free : (s.share i w).lock = lock) (keeps : ∀ j, (s.step i).isHeld j = held j) :
    Change s (s.step i) signals lock held := by
  have step_eq : s.step i = (s.share i w).setWorker i (w.next (s.connector s.attempts)) := by
    unfold step
    rw [hw]
  refine ⟨?_, ?_, keeps⟩
  · rw [step_eq]
    exact journal
  · rw [step_eq]
    exact free

theorem change_fail {e : Error} (hw : s.workers[i]? = some w) (hp : w.plan = .fail e)
    (h : s.isHeld i = true) :
    Change s (s.step i) (s.lock.release.1.map .lock ++ [.failed w.folder e]) s.lock.release.2
      fun j => if i = j then false else s.isHeld j := by
  rw [isHeld_of hw] at h
  apply change_of_share hw
  · simp [share, hp, h, release, Hold.release, record]
  · simp [share, hp, h, release, Hold.release, record]
  · intro j
    rw [isHeld_step hw, Worker.hold_next_fail _ hp]
    rfl

theorem change_fail_loose {e : Error} (hw : s.workers[i]? = some w) (hp : w.plan = .fail e)
    (h : s.isHeld i = false) : Change s (s.step i) [] s.lock s.isHeld := by
  have loose := h
  rw [isHeld_of hw] at loose
  apply change_of_share hw
  · simp [share, hp, loose]
  · simp [share, hp, loose]
  · intro j
    rw [isHeld_step hw, Worker.hold_next_fail _ hp]
    by_cases hi : i = j
    · rw [if_pos hi, ← hi, h]
      rfl
    · rw [if_neg hi]

/-- A worker does something that can be seen only while it has its hold: it reports a change, or
it fails and gives the hold back. -/
theorem change_step (i : Nat) (s : State) :
    Change s (s.step i) [] s.lock s.isHeld ∨
    s.isHeld i = true ∧
      ((∃ name event, Change s (s.step i) [.changed name event] s.lock s.isHeld) ∨
      ∃ name e, Change s (s.step i) (s.lock.release.1.map .lock ++ [.failed name e])
        s.lock.release.2 fun j => if i = j then false else s.isHeld j) := by
  cases hw : s.workers[i]? with
  | none =>
    have same : s.step i = s := by
      unfold step
      rw [hw]
    rw [same]
    exact .inl ⟨(List.append_nil _).symm, rfl, fun _ => rfl⟩
  | some w =>
    cases hp : w.plan with
    | connect =>
      left
      apply change_of_share hw
      · simp [share, hp, attempt]
      · simp [share, hp, attempt]
      · exact held_step hw (by simp [hp])
    | wait | rest =>
      left
      apply change_of_share hw
      · simp [share, hp]
      · simp [share, hp]
      · exact held_step hw (by simp [hp])
    | report c change =>
      have keeps := held_step hw (by simp [hp])
      by_cases tells : w.hold.held = true ∧ change.isSome = true
      · obtain ⟨held, some⟩ := tells
        obtain ⟨event, rfl⟩ := Option.isSome_iff_exists.mp some
        right
        refine ⟨by rw [isHeld_of hw, held], .inl ⟨w.folder, event, ?_⟩⟩
        apply change_of_share hw
        · simp [share, hp, held, record]
        · simp [share, hp, held, record]
        · exact keeps
      · have same : s.share i w = s := by
          cases held : w.hold.held with
          | false => simp [share, hp, held]
          | true =>
            cases change with
            | none => simp [share, hp, held, record]
            | some event => exact absurd ⟨held, rfl⟩ tells
        left
        apply change_of_share hw
        · rw [same, List.append_nil]
        · rw [same]
        · exact keeps
    | fail e =>
      by_cases held : s.isHeld i = true
      · exact .inr ⟨held, .inr ⟨w.folder, e, change_fail hw hp held⟩⟩
      · exact .inl (change_fail_loose hw hp (Bool.eq_false_iff.mpr held))

theorem length_stop (i : Nat) (s : State) : (s.stop i).workers.length = s.workers.length := by
  unfold stop
  split
  · rfl
  · exact List.length_set

theorem length_step (i : Nat) (s : State) : (s.step i).workers.length = s.workers.length := by
  unfold step
  split
  · rfl
  next w _ => exact List.length_set.trans (congrArg List.length (workers_share i w s))

end State
end MailClient.Watch
