import Mathlib.Data.List.Dedup
import MailClient.Proofs.Watch.Tending

/-! A watch list over its whole life: which folders it watches after a refresh, which workers it
hires for them, and when the lock of its workers is held. Calls of the list and steps of workers may
follow each other in any order, and so may the watches in each call. -/
namespace MailClient.Watch

open Chronicle (failures lockCalls)
open Imap (Error)

structure Watching where
  list : WatchList
  state : State

namespace Watching

inductive Event where
  | refresh (folders : List String)
  | stopAll
  /-- Worker `i` takes a step, be its watch still there or not. -/
  | step (i : Nat)
  | pass (span : Duration)
  /-- The watches come in another order from now on. -/
  | shuffle (watches : List FolderWatch)

def opened (settings : Settings) (locked : Bool) (connector : Nat → Attempt) : Watching :=
  ⟨.empty settings, .initial (if locked then .together else .unlocked) connector⟩

def perform : Event → Watching → Watching
  | .refresh folders, x =>
    let (_, list, state) := WatchList.refresh folders (x.list, x.state)
    ⟨list, state⟩
  | .stopAll, x =>
    let (_, list, state) := WatchList.stopAll (x.list, x.state)
    ⟨list, state⟩
  | .step i, x => { x with state := x.state.step i }
  | .pass span, x => { x with state := x.state.perform (.pass span) }
  | .shuffle watches, x =>
    if watches.Perm x.list.watches then ⟨⟨x.list.settings, watches⟩, x.state⟩ else x

def run : List Event → Watching → Watching
  | [], x => x
  | e :: es, x => run es (x.perform e)

def Event.worker? : Event → Option Nat
  | .step i => some i
  | .refresh _ | .stopAll | .pass _ | .shuffle _ => none

def marks (e : Event) (x : Watching) : List Mark :=
  ((x.perform e).state.journal.drop x.state.journal.length).map (.signal e.worker?)

def chronicle : List Event → Watching → List Mark
  | [], _ => []
  | e :: es, x => x.marks e ++ chronicle es (x.perform e)

/-- The watches of `names`, whose workers are hired one after the other from `n` on. -/
def watchesFrom (settings : Settings) (n : Nat) (names : List String) : List FolderWatch :=
  (names.zipIdx n).map fun p => ⟨p.1, settings, some p.2⟩

structure Refreshed (folders names : List String) (x x' : Watching) : Prop where
  watched : (x'.list.watches.map (·.folder)).Perm folders.dedup
  started : ∀ f ∈ x'.list.watches, f.isStarted = true
  kept : ∀ f ∈ x.list.watches, f.folder ∈ folders →
    f ∈ x'.list.watches ∧ ∀ i, f.worker = some i → x'.state.workers[i]? = x.state.workers[i]?
  stopped : ∀ f ∈ x.list.watches, f.folder ∉ folders →
    ∀ i, f.worker = some i → ∃ w, x'.state.workers[i]? = some w ∧ w.stopped.isSome = true
  distinct : names.Nodup
  unwatched : ∀ name, name ∈ names ↔ name ∈ folders ∧ name ∉ x.list.watches.map (·.folder)
  added : watchesFrom x.list.settings x.state.hired.length names ⊆ x'.list.watches
  hired : x'.state.hired = x.state.hired ++ names

end Watching

namespace WatchList

variable {folders : List String} {l : WatchList} {f : FolderWatch} {s s' : State}

def kept (folders : List String) (l : WatchList) : List FolderWatch :=
  l.watches.filter fun f => folders.contains f.folder

def removed (folders : List String) (l : WatchList) : List FolderWatch :=
  l.watches.filter fun f => !folders.contains f.folder

theorem mem_kept : f ∈ l.kept folders ↔ f ∈ l.watches ∧ f.folder ∈ folders := by
  simp [kept]

theorem mem_removed : f ∈ l.removed folders ↔ f ∈ l.watches ∧ f.folder ∉ folders := by
  simp [removed]

theorem mem_folders_kept {name : String} : name ∈ (l.kept folders).map (·.folder) ↔
    name ∈ l.watches.map (·.folder) ∧ name ∈ folders := by
  simp only [List.mem_map, mem_kept]
  constructor
  · rintro ⟨f, ⟨hf, wanted⟩, rfl⟩
    exact ⟨⟨f, hf, rfl⟩, wanted⟩
  · rintro ⟨⟨f, hf, rfl⟩, wanted⟩
    exact ⟨f, ⟨hf, wanted⟩, rfl⟩

theorem perm_parts (folders : List String) (l : WatchList) :
    l.watches.Perm (l.removed folders ++ l.kept folders) :=
  (List.filter_append_perm ..).symm.trans List.perm_append_comm

theorem refresh_of_stopEach (stops : stopEach (l.removed folders) s = (.ok (), s')) :
    refresh folders (l, s) = addEach folders (⟨l.settings, l.kept folders⟩, s') := by
  have parts : l.watches.partition (fun f => folders.contains f.folder) =
      (l.kept folders, l.removed folders) := List.partition_eq_filter_filter
  simp only [refresh]
  rw [parts]
  simp only [stops]

end WatchList

namespace State

variable {s : State} {i j : Nat}

theorem getElem?_stop_of_ne (h : i ≠ j) : (s.stop i).workers[j]? = s.workers[j]? := by
  cases hw : s.workers[j]? with
  | some w => rw [worker_stop hw, if_neg h]
  | none =>
    apply List.getElem?_eq_none_iff.mpr
    rw [length_stop]
    exact List.getElem?_eq_none_iff.mp hw

end State

namespace Tended

variable {locked : Bool} {kept watches : List FolderWatch} {s : State} {marks : List Mark}
  {l : WatchList}

structure Stopped (removed : List FolderWatch) (s s' : State) : Prop where
  hired : s'.hired = s.hired
  others : ∀ i, (∀ f ∈ removed, f.worker ≠ some i) → s'.workers[i]? = s.workers[i]?
  stopped : ∀ f ∈ removed, ∀ i, f.worker = some i →
    ∃ w, s'.workers[i]? = some w ∧ w.stopped.isSome = true

theorem stopEach (removed : List FolderWatch) (h : Tended locked (removed ++ kept) s marks) :
    ∃ s' signals, WatchList.stopEach removed s = (.ok (), s') ∧
      s'.journal = s.journal ++ signals ∧
      Tended locked kept s' (marks ++ signals.map (.signal Option.none)) ∧
      Stopped removed s s' := by
  induction removed generalizing s marks with
  | nil =>
    refine ⟨s, [], rfl, (List.append_nil _).symm, ?_, ⟨rfl, fun _ _ => rfl, ?_⟩⟩
    · rw [List.map_nil, List.append_nil]
      exact h
    · intro f hf
      cases hf
  | cons f removed ih =>
    obtain ⟨i, hi, served⟩ := h.served f (List.mem_cons_self ..)
    obtain ⟨first, told, tended⟩ := h.stop hi
    obtain ⟨s', rest, run, journal, tended, after⟩ := ih tended
    have alone : ∀ g ∈ removed, g.worker ≠ some i :=
      fun g hg => h.alone hi (List.mem_append_left _ hg)
    refine ⟨s', first ++ rest, ?_, ?_, ?_, ?_⟩
    · simp only [WatchList.stopEach, FolderWatch.stop, hi]
      exact run
    · rw [journal, told, List.append_assoc]
    · rw [List.map_append, ← List.append_assoc]
      exact tended
    · constructor
      · rw [after.hired, State.hired_stop]
      · intro j hj
        rw [after.others j fun g hg => hj g (List.mem_cons_of_mem _ hg)]
        apply State.getElem?_stop_of_ne
        rintro rfl
        exact hj f (List.mem_cons_self ..) hi
      · intro g hg j hj
        rcases List.mem_cons.mp hg with rfl | hg
        · obtain rfl : i = j := Option.some.inj (hi.symm.trans hj)
          obtain ⟨w, hw, -⟩ := State.worker_of_hired served
          rw [after.others i alone, State.worker_stop hw, if_pos rfl]
          exact ⟨_, rfl, rfl⟩
        · exact after.stopped g hg j hj

structure Added (folders names : List String) (l : WatchList) (s s' : State) : Prop where
  distinct : names.Nodup
  unwatched : ∀ name, name ∈ names ↔ name ∈ folders ∧ name ∉ l.watches.map (·.folder)
  hired : s'.hired = s.hired ++ names
  others : ∀ i, i < s.hired.length → s'.workers[i]? = s.workers[i]?

theorem addEach (folders : List String) (h : Tended locked l.watches s marks) :
    ∃ names s' signals,
      WatchList.addEach folders (l, s) = (.ok (), ⟨l.settings,
        l.watches ++ Watching.watchesFrom l.settings s.hired.length names⟩, s') ∧
      s'.journal = s.journal ++ signals ∧
      Tended locked (l.watches ++ Watching.watchesFrom l.settings s.hired.length names) s'
        (marks ++ signals.map (.signal Option.none)) ∧
      Added folders names l s s' := by
  induction folders generalizing l s marks with
  | nil =>
    refine ⟨[], s, [], ?_, (List.append_nil _).symm, ?_, ?_⟩
    · simp [WatchList.addEach, Watching.watchesFrom]
    · simpa [Watching.watchesFrom] using h
    · exact ⟨List.nodup_nil, by simp, (List.append_nil _).symm, fun _ _ => rfl⟩
  | cons folder folders ih =>
    by_cases watched : folder ∈ l.watches.map (·.folder)
    · have found : (l.find? folder).isSome = true := by
        obtain ⟨f, hf, rfl⟩ := List.mem_map.mp watched
        exact List.find?_isSome.mpr ⟨f, hf, beq_self_eq_true _⟩
      obtain ⟨names, s', signals, run, journal, tended, added⟩ := ih h
      refine ⟨names, s', signals, ?_, journal, tended, { added with unwatched := ?_ }⟩
      · simp only [WatchList.addEach, WatchList.add, found, if_true]
        exact run
      · intro name
        rw [added.unwatched, List.mem_cons, or_and_right, iff_or_self]
        rintro ⟨rfl, absent⟩
        exact absurd watched absent
    · have missing : ¬(l.find? folder).isSome = true := by
        intro found
        obtain ⟨f, hf, same⟩ := List.find?_isSome.mp found
        exact watched (List.mem_map.mpr ⟨f, hf, beq_iff_eq.mp same⟩)
      have c := s.change_start folder l.settings
      have hired := s.hired_start folder l.settings
      obtain ⟨names, s', signals, run, journal, tended, added⟩ :=
        ih (l := ⟨l.settings, l.watches ++ [⟨folder, l.settings, some s.workers.length⟩]⟩)
          (h.start l.settings watched)
      have cons : l.watches ++ Watching.watchesFrom l.settings s.hired.length (folder :: names) =
          l.watches ++ [⟨folder, l.settings, some s.workers.length⟩] ++
            Watching.watchesFrom l.settings (s.start folder l.settings).hired.length names := by
        rw [hired, List.length_append, ← s.length_hired]
        simp [Watching.watchesFrom]
      refine ⟨folder :: names, s', s.lock.acquire.1.map .lock ++ signals, ?_, ?_, ?_, ?_⟩
      · rw [cons]
        simp only [WatchList.addEach, WatchList.add, if_neg missing]
        exact run
      · rw [journal, c.journal, List.append_assoc]
      · rw [cons, List.map_append, ← List.append_assoc]
        exact tended
      · constructor
        · have absent : folder ∉ names := by
            intro mem
            exact ((added.unwatched folder).mp mem).2 (by simp)
          exact List.nodup_cons.mpr ⟨absent, added.distinct⟩
        · intro name
          rw [List.mem_cons, List.mem_cons, added.unwatched]
          by_cases same : name = folder
          · subst same
            simpa using watched
          · simp [same]
        · rw [added.hired, hired, List.append_assoc]
          rfl
        · intro i hi
          rw [added.others i (by rw [hired, List.length_append]; exact Nat.lt_add_right _ hi)]
          rw [State.length_hired] at hi
          exact List.getElem?_append_left hi

theorem folders_watchesFrom (settings : Settings) (n : Nat) (names : List String) :
    (Watching.watchesFrom settings n names).map (·.folder) = names := by
  unfold Watching.watchesFrom
  rw [List.map_map]
  exact List.zipIdx_map_fst ..

theorem refresh (folders : List String) (h : Tended locked l.watches s marks) :
    ∃ names l' s' signals, WatchList.refresh folders (l, s) = (.ok (), l', s') ∧
      s'.journal = s.journal ++ signals ∧
      Tended locked l'.watches s' (marks ++ signals.map (.signal Option.none)) ∧
      Watching.Refreshed folders names ⟨l, s⟩ ⟨l', s'⟩ := by
  obtain ⟨s₁, first, stops, told, tended₁, stopped⟩ := (h.perm (l.perm_parts folders)).stopEach
  obtain ⟨names, s', rest, adds, journal, tended, added⟩ :=
    tended₁.addEach (l := ⟨l.settings, l.kept folders⟩) folders
  refine ⟨names,
    ⟨l.settings, l.kept folders ++ Watching.watchesFrom l.settings s₁.hired.length names⟩,
    s', first ++ rest, ?_, ?_, ?_, ?_⟩
  · rw [WatchList.refresh_of_stopEach stops]
    exact adds
  · rw [journal, told, List.append_assoc]
  · rw [List.map_append, ← List.append_assoc]
    exact tended
  · constructor
    · apply (List.perm_ext_iff_of_nodup tended.names (List.nodup_dedup folders)).mpr
      intro name
      rw [List.mem_dedup, List.map_append, folders_watchesFrom, List.mem_append,
        added.unwatched, WatchList.mem_folders_kept]
      grind
    · intro f hf
      obtain ⟨i, hi, -⟩ := tended.served f hf
      exact Option.isSome_iff_exists.mpr ⟨i, hi⟩
    · intro f hf wanted
      have mem : f ∈ l.kept folders := WatchList.mem_kept.mpr ⟨hf, wanted⟩
      refine ⟨List.mem_append_left _ mem, ?_⟩
      intro i hi
      rw [added.others i (tended₁.lt_of_served mem hi)]
      apply stopped.others
      intro g hg same
      obtain ⟨hg, unwanted⟩ := WatchList.mem_removed.mp hg
      exact unwanted (h.folder_eq hf hg hi same ▸ wanted)
    · intro f hf unwanted i hi
      rw [added.others i (stopped.hired ▸ h.lt_of_served hf hi)]
      exact stopped.stopped f (WatchList.mem_removed.mpr ⟨hf, unwanted⟩) i hi
    · exact added.distinct
    · intro name
      rw [added.unwatched, WatchList.mem_folders_kept]
      grind
    · rw [← stopped.hired]
      exact List.subset_append_right ..
    · rw [added.hired, stopped.hired]

theorem stopAll (h : Tended locked l.watches s marks) :
    ∃ s' signals, WatchList.stopAll (l, s) = (.ok (), ⟨l.settings, []⟩, s') ∧
      s'.journal = s.journal ++ signals ∧
      Tended locked [] s' (marks ++ signals.map (.signal Option.none)) ∧
      Stopped l.watches s s' := by
  have all : Tended locked (l.watches ++ []) s marks := by
    rw [List.append_nil]
    exact h
  obtain ⟨s', signals, stops, rest⟩ := all.stopEach
  refine ⟨s', signals, ?_, rest⟩
  simp only [WatchList.stopAll]
  rw [stops]

end Tended

namespace Watching

variable {locked : Bool} {x : Watching} {e : Event} {marks : List Mark}

theorem marks_of_journal {signals : List Signal}
    (h : (x.perform e).state.journal = x.state.journal ++ signals) :
    x.marks e = signals.map (.signal e.worker?) := by
  unfold Watching.marks
  rw [h, List.drop_left]

theorem tended_perform (h : Tended locked x.list.watches x.state marks) (e : Event) :
    Tended locked (x.perform e).list.watches (x.perform e).state (marks ++ x.marks e) := by
  have quiet : ∀ e, (x.perform e).state.journal = x.state.journal → x.marks e = [] := by
    intro e same
    unfold Watching.marks
    rw [same, List.drop_length]
    rfl
  cases e with
  | refresh folders =>
    obtain ⟨names, l', s', signals, run, journal, tended, -⟩ := h.refresh folders
    have after : x.perform (.refresh folders) = ⟨l', s'⟩ := by
      simp only [perform, run]
    rw [marks_of_journal (by rw [after]; exact journal), after]
    exact tended
  | stopAll =>
    obtain ⟨s', signals, run, journal, tended, -⟩ := h.stopAll
    have after : x.perform .stopAll = ⟨⟨x.list.settings, []⟩, s'⟩ := by
      simp only [perform, run]
    rw [marks_of_journal (by rw [after]; exact journal), after]
    exact tended
  | step i =>
    obtain ⟨signals, journal, tended⟩ := h.step i
    rw [marks_of_journal (e := .step i) journal]
    exact tended
  | pass span =>
    rw [quiet (.pass span) rfl]
    exact h.still rfl ⟨(List.append_nil _).symm, rfl, fun _ => rfl⟩ rfl fun _ => rfl
  | shuffle watches =>
    by_cases perm : watches.Perm x.list.watches
    · have after : x.perform (.shuffle watches) = ⟨⟨x.list.settings, watches⟩, x.state⟩ :=
        if_pos perm
      rw [quiet _ (by rw [after]), List.append_nil, after]
      exact h.perm perm.symm
    · have after : x.perform (.shuffle watches) = x := if_neg perm
      rw [quiet _ (by rw [after]), List.append_nil, after]
      exact h

theorem tended_run (h : Tended locked x.list.watches x.state marks) (es : List Event) :
    Tended locked (x.run es).list.watches (x.run es).state (marks ++ x.chronicle es) := by
  induction es generalizing x marks with
  | nil =>
    rw [chronicle, List.append_nil]
    exact h
  | cons e es ih =>
    rw [chronicle, ← List.append_assoc]
    exact ih (tended_perform h e)

structure Maintained (locked : Bool) (x : Watching) (marks : List Mark) : Prop where
  served : ∀ f ∈ x.list.watches, ∃ i, f.worker = some i ∧ x.state.hired[i]? = some f.folder
  refresh : ∀ folders, (WatchList.refresh folders (x.list, x.state)).1 = .ok () ∧
    ∃ names, Refreshed folders names x (x.perform (.refresh folders))
  stopAll : (WatchList.stopAll (x.list, x.state)).1 = .ok () ∧
    (x.perform .stopAll).list.watches = [] ∧
    (x.perform .stopAll).state.hired = x.state.hired
  alternating : Alternating (lockCalls marks)
  unlocked : locked = false → lockCalls marks = []
  /-- The lock is held as long as a watch has a worker that has not failed. -/
  held : (lockCalls marks).getLast? = some .acquire ↔ locked = true ∧
    ∃ f ∈ x.list.watches, ∃ i, f.worker = some i ∧ failures i marks = 0

theorem maintained_of_tended (h : Tended locked x.list.watches x.state marks) :
    Maintained locked x marks := by
  constructor
  · exact h.served
  · intro folders
    obtain ⟨names, l', s', signals, run, -, -, refreshed⟩ := h.refresh folders
    have after : x.perform (.refresh folders) = ⟨l', s'⟩ := by
      simp only [perform, run]
    rw [run, after]
    exact ⟨rfl, names, refreshed⟩
  · obtain ⟨s', signals, run, -, -, stopped⟩ := h.stopAll
    have after : x.perform .stopAll = ⟨⟨x.list.settings, []⟩, s'⟩ := by
      simp only [perform, run]
    rw [run, after]
    exact ⟨rfl, rfl, stopped.hired⟩
  · exact h.tally.alternating
  · exact h.tally.unlocked
  · rw [h.tally.last, List.countP_pos_iff]
    apply and_congr_right'
    apply exists_congr
    intro f
    apply and_congr_right
    intro hf
    obtain ⟨i, hi, -⟩ := h.served f hf
    rw [Tended.isHeld_of_worker hi, h.failed f hf i hi]
    constructor
    · exact fun none => ⟨i, hi, none⟩
    · rintro ⟨j, hj, none⟩
      obtain rfl : i = j := Option.some.inj (hi.symm.trans hj)
      exact none

theorem maintained (settings : Settings) (locked : Bool) (connector : Nat → Attempt)
    (es : List Event) : Maintained locked (run es (opened settings locked connector))
      (chronicle es (opened settings locked connector)) := by
  have first : Tended locked (opened settings locked connector).list.watches
      (opened settings locked connector).state [] := .nil locked connector
  exact maintained_of_tended (tended_run first es)

end Watching
end MailClient.Watch
