import Mathlib.Data.List.Chain
import Mathlib.Data.List.Nodup
import MailClient.Proofs.Watch.Cycle
import MailClient.Proofs.Watch.Lifecycle
import MailClient.Watch.WatchList

/-! Watches over different folders, each with a worker of its own, and one lock among them that
counts their holds. The watches come in no particular order. -/
namespace MailClient.Watch

open Chronicle (failures failures_append lockCalls lockCalls_append)

/-! ### A lock with holders -/

namespace WakeLock

/-- The lock that the watches of a list share, while `n` of their workers have a hold. -/
def shared (locked : Bool) (n : Nat) : WakeLock := if locked then ⟨.together, n⟩ else ⟨.unlocked, 0⟩

theorem acquire_shared (locked : Bool) (n : Nat) : (shared locked n).acquire =
    (if locked = true ∧ n = 0 then [.acquire] else [], shared locked (n + 1)) := by
  cases locked with
  | false => rfl
  | true =>
    by_cases hn : n = 0
    · subst hn
      rfl
    · simp [shared, acquire, hn]

theorem release_shared (locked : Bool) (n : Nat) : (shared locked (n + 1)).release =
    (if locked = true ∧ n = 0 then [.release] else [], shared locked n) := by
  cases locked with
  | false => rfl
  | true =>
    by_cases hn : n = 0
    · subst hn
      rfl
    · simp [shared, release, hn]

end WakeLock

structure Alternating (calls : List LockCall) : Prop where
  first : calls.head? ≠ some .release
  turns : calls.IsChain (· ≠ ·)

theorem Alternating.concat {calls : List LockCall} (h : Alternating calls) {call : LockCall}
    (next : call = .acquire ↔ calls.getLast? ≠ some .acquire) : Alternating (calls ++ [call]) := by
  constructor
  · cases calls with
    | nil =>
      have taken : call = .acquire := next.mpr (by simp)
      simp [taken]
    | cons c calls => exact h.first
  · apply List.isChain_append.mpr
    refine ⟨h.turns, List.isChain_singleton call, ?_⟩
    intro c hc d hd same
    cases hd
    subst same
    cases c with
    | acquire => exact next.mp rfl hc
    | release =>
      have last : calls.getLast? = some .release := hc
      rw [last] at next
      exact LockCall.noConfusion (next.mpr (by simp))

structure Tally (locked : Bool) (calls : List LockCall) (n : Nat) : Prop where
  alternating : Alternating calls
  last : calls.getLast? = some .acquire ↔ locked = true ∧ 0 < n
  unlocked : locked = false → calls = []

namespace Tally

variable {locked : Bool} {calls : List LockCall} {n : Nat}

theorem zero (locked : Bool) : Tally locked [] 0 :=
  ⟨⟨by simp, .nil⟩, by simp, fun _ => rfl⟩

theorem acquire (h : Tally locked calls n) :
    Tally locked (calls ++ (WakeLock.shared locked n).acquire.1) (n + 1) := by
  rw [WakeLock.acquire_shared]
  by_cases first : locked = true ∧ n = 0
  · obtain ⟨rfl, rfl⟩ := first
    rw [if_pos ⟨rfl, rfl⟩]
    refine ⟨h.alternating.concat ?_, by simp, by simp⟩
    rw [ne_eq, h.last]
    simp
  · rw [if_neg first, List.append_nil]
    refine ⟨h.alternating, h.last.trans ?_, h.unlocked⟩
    grind

theorem release (h : Tally locked calls (n + 1)) :
    Tally locked (calls ++ (WakeLock.shared locked (n + 1)).release.1) n := by
  rw [WakeLock.release_shared]
  by_cases final : locked = true ∧ n = 0
  · obtain ⟨rfl, rfl⟩ := final
    rw [if_pos ⟨rfl, rfl⟩]
    refine ⟨h.alternating.concat ?_, by simp, by simp⟩
    rw [ne_eq, h.last]
    simp
  · rw [if_neg final, List.append_nil]
    refine ⟨h.alternating, h.last.trans ?_, h.unlocked⟩
    grind

end Tally

/-! ### Workers by the folders they were hired for -/

namespace State

variable {s : State} {i : Nat} {w : Worker}

def hired (s : State) : List String := s.workers.map (·.folder)

theorem length_hired (s : State) : s.hired.length = s.workers.length := List.length_map ..

theorem worker_of_hired {name : String} (h : s.hired[i]? = some name) :
    ∃ w, s.workers[i]? = some w ∧ w.folder = name := by
  unfold hired at h
  rw [List.getElem?_map] at h
  exact Option.map_eq_some_iff.mp h

theorem hired_start (folder : String) (settings : Settings) (s : State) :
    (s.start folder settings).hired = s.hired ++ [folder] := List.map_append

theorem hired_setWorker (hw : s.workers[i]? = some w) {w' : Worker}
    (same : w'.folder = w.folder) : (s.setWorker i w').hired = s.hired := by
  unfold hired setWorker
  rw [List.map_set, same]
  obtain ⟨hi, rfl⟩ := List.getElem?_eq_some_iff.mp hw
  have bound : i < (s.workers.map (·.folder)).length := by simpa using hi
  have own : (s.workers.map (·.folder))[i] = s.workers[i].folder := List.getElem_map ..
  rw [← own, List.set_getElem_self]

theorem hired_stop (i : Nat) (s : State) : (s.stop i).hired = s.hired := by
  unfold stop
  split
  · rfl
  next w hw => exact hired_setWorker (s := s.release w.hold) hw rfl

theorem hired_step (i : Nat) (s : State) : (s.step i).hired = s.hired := by
  unfold step
  split
  · rfl
  next w hw =>
    have shared : (s.share i w).workers[i]? = some w := by
      rw [workers_share]
      exact hw
    rw [hired_setWorker shared (Worker.constant_next _ w).1]
    exact congrArg (List.map _) (workers_share i w s)

end State

/-! ### The watches of a list -/

structure Tended (locked : Bool) (watches : List FolderWatch) (s : State) (marks : List Mark) :
    Prop where
  names : (watches.map (·.folder)).Nodup
  served : ∀ f ∈ watches, ∃ i, f.worker = some i ∧ s.hired[i]? = some f.folder
  owned : ∀ i, s.isHeld i = true → ∃ f ∈ watches, f.worker = some i
  lock : s.lock = .shared locked (watches.countP (·.isHeld s))
  tally : Tally locked (lockCalls marks) (watches.countP (·.isHeld s))
  /-- A worker of a watch keeps its hold until it fails. -/
  failed : ∀ f ∈ watches, ∀ i, f.worker = some i → (s.isHeld i = true ↔ failures i marks = 0)
  unhired : ∀ i, s.hired.length ≤ i → failures i marks = 0

namespace Tended

variable {locked : Bool} {watches rest : List FolderWatch} {s s' : State} {marks new : List Mark}
  {f : FolderWatch} {i : Nat} {signals : List Signal} {lock : WakeLock} {held : Nat → Bool}

theorem nil (locked : Bool) (connector : Nat → Attempt) :
    Tended locked [] (.initial (if locked then .together else .unlocked) connector) [] where
  names := List.nodup_nil
  served _ hf := absurd hf List.not_mem_nil
  owned i hi := by cases hi
  lock := by cases locked <;> rfl
  tally := .zero locked
  failed _ hf := absurd hf List.not_mem_nil
  unhired _ _ := rfl

theorem perm (h : Tended locked watches s marks) (p : watches.Perm rest) :
    Tended locked rest s marks where
  names := (p.map _).nodup_iff.mp h.names
  served f hf := h.served f (p.mem_iff.mpr hf)
  owned i hi := by
    obtain ⟨f, hf, worker⟩ := h.owned i hi
    exact ⟨f, p.mem_iff.mp hf, worker⟩
  lock := p.countP_eq (·.isHeld s) ▸ h.lock
  tally := p.countP_eq (·.isHeld s) ▸ h.tally
  failed f hf := h.failed f (p.mem_iff.mpr hf)
  unhired := h.unhired

/-- A worker is hired for one folder. -/
theorem folder_eq (h : Tended locked watches s marks) {g : FolderWatch} (hf : f ∈ watches)
    (hg : g ∈ watches) (hi : f.worker = some i) (same : g.worker = some i) :
    g.folder = f.folder := by
  obtain ⟨j, hj, own⟩ := h.served f hf
  obtain ⟨k, hk, other⟩ := h.served g hg
  obtain rfl : i = j := Option.some.inj (hi.symm.trans hj)
  obtain rfl : i = k := Option.some.inj (same.symm.trans hk)
  exact Option.some.inj (other.symm.trans own)

theorem alone (h : Tended locked (f :: rest) s marks) (hi : f.worker = some i)
    {g : FolderWatch} (hg : g ∈ rest) : g.worker ≠ some i := by
  intro same
  have folder := h.folder_eq (List.mem_cons_self ..) (List.mem_cons_of_mem _ hg) hi same
  have distinct := (List.nodup_cons.mp h.names).1
  exact distinct (List.mem_map.mpr ⟨g, hg, folder⟩)

theorem isHeld_of_worker (hi : f.worker = some i) : f.isHeld s = s.isHeld i := by
  rw [FolderWatch.isHeld, hi, Option.any_some]

theorem lockCalls_given (worker : Option Nat) (calls : List LockCall) :
    lockCalls ((calls.map .lock).map (.signal worker)) = calls := by
  unfold lockCalls
  rw [List.map_map, List.filterMap_map]
  exact List.filterMap_some

theorem failures_given (worker : Option Nat) (calls : List LockCall) (i : Nat) :
    failures i ((calls.map .lock).map (.signal worker)) = 0 := by
  apply List.countP_eq_zero.mpr
  intro m hm
  obtain ⟨_, hs, rfl⟩ := List.mem_map.mp hm
  obtain ⟨_, _, rfl⟩ := List.mem_map.mp hs
  simp [Mark.isFailure]

/-- Watches are counted alike where their workers have their holds alike. -/
theorem count_eq (h : Tended locked watches s marks) (s' : State) (hsub : rest ⊆ watches)
    (same : ∀ f ∈ rest, ∀ i, f.worker = some i → s'.isHeld i = s.isHeld i) :
    rest.countP (·.isHeld s') = rest.countP (·.isHeld s) := by
  apply List.countP_congr
  intro f hf
  obtain ⟨i, hi, -⟩ := h.served f (hsub hf)
  rw [isHeld_of_worker hi, isHeld_of_worker hi, same f hf i hi]

theorem lt_of_served (h : Tended locked watches s marks) (hf : f ∈ watches)
    (hi : f.worker = some i) : i < s.hired.length := by
  obtain ⟨j, hj, folder⟩ := h.served f hf
  obtain rfl : i = j := Option.some.inj (hi.symm.trans hj)
  exact (List.getElem?_eq_some_iff.mp folder).1

theorem start (h : Tended locked watches s marks) {name : String} (settings : Settings)
    (unwatched : name ∉ watches.map (·.folder)) :
    Tended locked (watches ++ [⟨name, settings, some s.workers.length⟩]) (s.start name settings)
      (marks ++ (s.lock.acquire.1.map .lock).map (.signal none)) := by
  have c := s.change_start name settings
  have hired := s.hired_start name settings
  have old : ∀ i, i < s.hired.length → (s.start name settings).isHeld i = s.isHeld i := by
    intro i hi
    rw [State.length_hired] at hi
    rw [c.held]
    simp [Nat.ne_of_lt hi]
  have new : (s.start name settings).isHeld s.workers.length = true := by
    rw [c.held]
    simp
  have count : (watches ++ [FolderWatch.mk name settings (some s.workers.length)]).countP
      (·.isHeld (s.start name settings)) = watches.countP (·.isHeld s) + 1 := by
    rw [List.countP_append, h.count_eq (s.start name settings) (fun _ hf => hf)
      fun f hf i hi => old i (h.lt_of_served hf hi)]
    simp [FolderWatch.isHeld, new]
  constructor
  · rw [List.map_append]
    refine List.nodup_append.mpr ⟨h.names, List.nodup_singleton _, ?_⟩
    intro a ha b hb same
    obtain rfl : b = name := List.mem_singleton.mp hb
    exact unwatched (same ▸ ha)
  · intro f hf
    rw [hired]
    rcases List.mem_append.mp hf with hf | hf
    · obtain ⟨i, hi, folder⟩ := h.served f hf
      exact ⟨i, hi, by rw [List.getElem?_append_left (h.lt_of_served hf hi), folder]⟩
    · obtain rfl := List.mem_singleton.mp hf
      exact ⟨s.workers.length, rfl, by
        rw [← State.length_hired, List.getElem?_concat_length]⟩
  · intro i hi
    rw [c.held, Bool.or_eq_true, beq_iff_eq] at hi
    rcases hi with hi | rfl
    · obtain ⟨f, hf, worker⟩ := h.owned i hi
      exact ⟨f, List.mem_append_left _ hf, worker⟩
    · exact ⟨_, List.mem_concat_self, rfl⟩
  · rw [c.lock, count, h.lock, WakeLock.acquire_shared]
  · rw [count, lockCalls_append, lockCalls_given, h.lock]
    exact h.tally.acquire
  · intro f hf i hi
    rw [failures_append, failures_given, Nat.add_zero]
    rcases List.mem_append.mp hf with hf | hf
    · rw [old i (h.lt_of_served hf hi)]
      exact h.failed f hf i hi
    · obtain rfl := List.mem_singleton.mp hf
      obtain rfl : s.workers.length = i := Option.some.inj hi
      have none := h.unhired s.workers.length (Nat.le_of_eq s.length_hired)
      exact iff_of_true new none
  · intro i hi
    rw [hired, List.length_append] at hi
    rw [failures_append, failures_given, Nat.add_zero]
    exact h.unhired i (Nat.le_of_add_right_le hi)

/-- The first watch loses its worker's hold. -/
theorem count_cons (h : Tended locked (f :: rest) s marks) (hi : f.worker = some i)
    (others : ∀ j, s'.isHeld j = if i = j then false else s.isHeld j) :
    (f :: rest).countP (·.isHeld s) =
      rest.countP (·.isHeld s') + if s.isHeld i then 1 else 0 := by
  rw [List.countP_cons, isHeld_of_worker hi,
    h.count_eq s' (List.subset_cons_self ..) ?_]
  intro g hg j hj
  rw [others, if_neg]
  rintro rfl
  exact h.alone hi hg hj

theorem release (h : Tended locked (f :: rest) s marks) (hi : f.worker = some i)
    (held : s.isHeld i = true)
    (c : State.Change s s' signals s.lock.release.2 fun j => if i = j then false else s.isHeld j) :
    s'.lock = .shared locked (rest.countP (·.isHeld s')) ∧
      Tally locked (lockCalls marks ++ s.lock.release.1) (rest.countP (·.isHeld s')) := by
  have count := h.count_cons hi c.held
  rw [held, if_pos rfl] at count
  have lock := h.lock
  have tally := h.tally
  rw [count] at lock tally
  rw [c.lock, lock]
  exact ⟨by rw [WakeLock.release_shared], tally.release⟩

theorem stop (h : Tended locked (f :: rest) s marks) (hi : f.worker = some i) :
    ∃ signals, (s.stop i).journal = s.journal ++ signals ∧
      Tended locked rest (s.stop i) (marks ++ signals.map (.signal none)) := by
  have others := State.isHeld_stop i (s := s)
  obtain ⟨calls, journal, lock, tally⟩ : ∃ calls,
      (s.stop i).journal = s.journal ++ calls.map .lock ∧
      (s.stop i).lock = .shared locked (rest.countP (·.isHeld (s.stop i))) ∧
      Tally locked (lockCalls marks ++ calls) (rest.countP (·.isHeld (s.stop i))) := by
    by_cases held : s.isHeld i = true
    · have c := State.change_stop held
      exact ⟨_, c.journal, h.release hi held c⟩
    · have c := State.change_stop_loose (Bool.eq_false_iff.mpr held)
      have count := h.count_cons hi others
      rw [if_neg held, Nat.add_zero] at count
      refine ⟨[], c.journal, ?_, ?_⟩
      · rw [c.lock, h.lock, count]
      · rw [List.append_nil, ← count]
        exact h.tally
  refine ⟨calls.map .lock, journal, ?_⟩
  constructor
  · exact (List.nodup_cons.mp h.names).2
  · rw [State.hired_stop]
    exact fun g hg => h.served g (List.mem_cons_of_mem _ hg)
  · intro j hj
    rw [others] at hj
    by_cases same : i = j
    · rw [if_pos same] at hj
      cases hj
    · rw [if_neg same] at hj
      obtain ⟨g, hg, worker⟩ := h.owned j hj
      rcases List.mem_cons.mp hg with rfl | hg
      · exact absurd (Option.some.inj (hi.symm.trans worker)) same
      · exact ⟨g, hg, worker⟩
  · exact lock
  · rw [lockCalls_append, lockCalls_given]
    exact tally
  · intro g hg j hj
    have same : i ≠ j := by
      rintro rfl
      exact h.alone hi hg hj
    rw [failures_append, failures_given, Nat.add_zero, others, if_neg same]
    exact h.failed g (List.mem_cons_of_mem _ hg) j hj
  · intro j hj
    rw [State.hired_stop] at hj
    rw [failures_append, failures_given, Nat.add_zero]
    exact h.unhired j hj

/-- A step that changes no hold, and tells nothing of the lock or of a failure. -/
theorem still (h : Tended locked watches s marks) (hired : s'.hired = s.hired)
    (c : State.Change s s' signals s.lock s.isHeld) (calls : lockCalls new = [])
    (well : ∀ i, failures i new = 0) : Tended locked watches s' (marks ++ new) := by
  have count := h.count_eq s' (fun _ hf => hf) fun _ _ i _ => c.held i
  constructor
  · exact h.names
  · rw [hired]
    exact h.served
  · intro i hi
    rw [c.held] at hi
    exact h.owned i hi
  · rw [c.lock, count]
    exact h.lock
  · rw [count, lockCalls_append, calls, List.append_nil]
    exact h.tally
  · intro f hf i hi
    rw [c.held, failures_append, well, Nat.add_zero]
    exact h.failed f hf i hi
  · intro i hi
    rw [hired] at hi
    rw [failures_append, well, Nat.add_zero]
    exact h.unhired i hi

theorem failures_failing (i j : Nat) (calls : List LockCall) (name : String) (e : Imap.Error) :
    failures j ((calls.map Signal.lock ++ [Signal.failed name e]).map (.signal (some i))) =
      if i = j then 1 else 0 := by
  rw [List.map_append, failures_append, failures_given, Nat.zero_add]
  simp [failures, Mark.isFailure, List.countP_singleton]

/-- The worker of the first watch fails. -/
theorem fail (h : Tended locked (f :: rest) s marks) (hi : f.worker = some i)
    (held : s.isHeld i = true) {name : String} {e : Imap.Error} (hired : s'.hired = s.hired)
    (c : State.Change s s' (s.lock.release.1.map .lock ++ [.failed name e]) s.lock.release.2
      fun j => if i = j then false else s.isHeld j) :
    Tended locked (f :: rest) s' (marks ++
      (s.lock.release.1.map Signal.lock ++ [Signal.failed name e]).map (.signal (some i))) := by
  obtain ⟨lock, tally⟩ := h.release hi held c
  have loose : s'.isHeld i = false := by
    rw [c.held, if_pos rfl]
  have count : (f :: rest).countP (·.isHeld s') = rest.countP (·.isHeld s') := by
    rw [List.countP_cons, isHeld_of_worker hi, loose]
    rfl
  constructor
  · exact h.names
  · rw [hired]
    exact h.served
  · intro j hj
    rw [c.held] at hj
    by_cases same : i = j
    · exact ⟨f, List.mem_cons_self .., same ▸ hi⟩
    · rw [if_neg same] at hj
      exact h.owned j hj
  · rw [count]
    exact lock
  · rw [count, lockCalls_append, List.map_append, lockCalls_append, lockCalls_given]
    exact (List.append_nil _).symm ▸ tally
  · intro g hg j hj
    rw [failures_append, failures_failing, c.held]
    by_cases same : i = j
    · simp [same]
    · rw [if_neg same, if_neg same, Nat.add_zero]
      exact h.failed g hg j hj
  · intro j hj
    rw [hired] at hj
    have hired_before := h.lt_of_served (List.mem_cons_self ..) hi
    have other : i ≠ j := Nat.ne_of_lt (Nat.lt_of_lt_of_le hired_before hj)
    rw [failures_append, failures_failing, if_neg other, Nat.add_zero]
    exact h.unhired j hj

theorem step (h : Tended locked watches s marks) (i : Nat) :
    ∃ signals, (s.step i).journal = s.journal ++ signals ∧
      Tended locked watches (s.step i) (marks ++ signals.map (.signal (some i))) := by
  have hired := s.hired_step i
  rcases s.change_step i with c | ⟨hi, ⟨name, event, c⟩ | ⟨name, e, c⟩⟩
  · exact ⟨_, c.journal, h.still hired c rfl fun _ => rfl⟩
  · exact ⟨_, c.journal, h.still hired c rfl fun _ => rfl⟩
  · obtain ⟨f, hf, worker⟩ := h.owned i hi
    obtain ⟨before, after, rfl⟩ := List.append_of_mem hf
    have first : (before ++ f :: after).Perm (f :: (before ++ after)) := List.perm_middle
    exact ⟨_, c.journal, ((h.perm first).fail worker hi hired c).perm first.symm⟩

end Tended
end MailClient.Watch
