import MailClient.Watch.State

/-! Runs of all workers: what is done to them from outside and what they do, in any order. -/
namespace MailClient.Watch

inductive Deed where
  | start (folder : String) (settings : Settings)
  | stop (i : Nat)
  | step (i : Nat)
  | pass (span : Duration)

namespace State

variable {s : State} {i : Nat} {w : Worker}

def perform : Deed → State → State
  | .start folder settings, s => s.start folder settings
  | .stop i, s => s.stop i
  | .step i, s => s.step i
  | .pass span, s => { s with now := s.now + span }

def run : List Deed → State → State
  | [], s => s
  | d :: ds, s => run ds (s.perform d)

/-- What a deed makes of worker `i`, given what its next attempt to connect leads to. -/
def afterDeed (i : Nat) (now : Duration) (a : Attempt) : Deed → Worker → Worker
  | .stop j, w => if j = i then { w with hold := .loose, stopped := some now } else w
  | .step j, w => if j = i then w.next a else w
  | .start .., w | .pass _, w => w

theorem getElem?_set (h : s.workers[i]? = some w) (j : Nat) (w' : Worker) :
    (s.setWorker j w').workers[i]? = some (if j = i then w' else w) := by
  have hi : i < s.workers.length := (List.getElem?_eq_some_iff.mp h).1
  unfold setWorker
  by_cases hj : j = i
  · rw [if_pos hj, hj]
    exact List.getElem?_set_self hi
  · rw [if_neg hj, ← h]
    exact List.getElem?_set_ne hj

theorem worker_stop (h : s.workers[i]? = some w) (j : Nat) : (s.stop j).workers[i]? =
    some (if j = i then { w with hold := .loose, stopped := some s.now } else w) := by
  unfold stop
  by_cases hj : j = i
  · subst hj
    rw [h]
    have hr : (s.release w.hold).workers[j]? = some w := h
    exact (getElem?_set hr j _).trans (by rw [if_pos rfl])
  · rw [if_neg hj]
    cases hw : s.workers[j]? with
    | none => exact h
    | some w' =>
      have hr : (s.release w'.hold).workers[i]? = some w := h
      exact (getElem?_set hr j _).trans (by rw [if_neg hj])

theorem worker_step_any (h : s.workers[i]? = some w) (j : Nat) : (s.step j).workers[i]? =
    some (if j = i then w.next (s.connector s.attempts) else w) := by
  by_cases hj : j = i
  · subst hj
    rw [if_pos rfl]
    exact worker_step h
  · rw [if_neg hj]
    unfold step
    cases hw : s.workers[j]? with
    | none => exact h
    | some w' =>
      have hs : (s.share j w').workers[i]? = some w := by
        rw [workers_share]
        exact h
      exact (getElem?_set hs j _).trans (by rw [if_neg hj])

/-- Workers only meet in what they share, so a deed changes no worker but its own. -/
theorem worker_perform (h : s.workers[i]? = some w) (d : Deed) :
    (s.perform d).workers[i]? = some (afterDeed i s.now (s.connector s.attempts) d w) := by
  cases d with
  | start folder settings =>
    have hi : i < s.workers.length := (List.getElem?_eq_some_iff.mp h).1
    exact (List.getElem?_append_left hi).trans h
  | stop j => exact worker_stop h j
  | step j => exact worker_step_any h j
  | pass span => exact h

/-- A worker that is not there yet comes in by a start. -/
theorem absent_perform (h : s.workers[i]? = none) (d : Deed) :
    (s.perform d).workers[i]? = none ∨
      ∃ folder settings hold, d = .start folder settings ∧
        (s.perform d).workers[i]? = some (.hired folder settings hold s.now) := by
  cases d with
  | start folder settings =>
    have hi : s.workers.length ≤ i := List.getElem?_eq_none_iff.mp h
    have hired : (s.start folder settings).workers =
        s.workers ++ [.hired folder settings (Hold.loose.acquire s.lock).2.1 s.now] := rfl
    change (s.start folder settings).workers[i]? = none ∨ _
    rcases Nat.eq_or_lt_of_le hi with rfl | hi
    · right
      refine ⟨folder, settings, (Hold.loose.acquire s.lock).2.1, rfl, ?_⟩
      change (s.start folder settings).workers[s.workers.length]? = _
      rw [hired, List.getElem?_concat_length]
    · left
      apply List.getElem?_eq_none_iff.mpr
      rw [hired, List.length_append]
      exact hi
  | stop j =>
    left
    change (s.stop j).workers[i]? = none
    unfold stop
    split
    · exact h
    · have absent := List.getElem?_eq_none_iff.mp h
      exact List.getElem?_eq_none_iff.mpr ((List.length_set ..).symm ▸ absent)
  | step j =>
    left
    change (s.step j).workers[i]? = none
    unfold step
    split
    · exact h
    next w _ =>
      have absent := List.getElem?_eq_none_iff.mp h
      rw [← workers_share j w s] at absent
      exact List.getElem?_eq_none_iff.mpr ((List.length_set ..).symm ▸ absent)
  | pass span => exact .inl h

end State
end MailClient.Watch
