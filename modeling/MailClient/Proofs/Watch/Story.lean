import MailClient.Proofs.Watch.Cycle
import MailClient.Proofs.Watch.Run

/-! What a worker tells in a run: the opening of its folder, then cycles, each with its report. -/
namespace MailClient.Watch

open Imap (Connection Entry Event)

inductive Note where
  | signal (s : Signal)
  | entry (e : Entry)

namespace Note

def isIdle : Note → Bool
  | .entry e => e.isIdle
  | .signal _ => false

def isReport (folder : String) : Note → Bool
  | .signal (.changed f _) => f == folder
  | _ => false

def isChange : Note → Bool
  | .entry (.response r) => r.isFolderChange
  | _ => false

end Note

def Worker.transcript (w : Worker) : List Entry :=
  match w.plan with
  | .report c _ => c.transcript
  | _ => []

theorem Worker.transcript_of_report {w : Worker} {c : Connection} {change : Option Event}
    (h : w.plan = .report c change) : w.transcript = c.transcript := by
  unfold transcript
  rw [h]

theorem Worker.transcript_of_unconnected {w : Worker} (h : w.plan = .connect ∨ w.plan = .wait) :
    w.transcript = [] := by
  unfold transcript
  rcases h with h | h <;> rw [h]

namespace State

def growth (i : Nat) (s : State) : List Entry :=
  match s.workers[i]?, (s.step i).workers[i]? with
  | some w, some w' => w'.transcript.drop w.transcript.length
  | _, _ => []

/-- What a deed adds to the notes of worker `i`. It signals before it goes on. -/
def newNotes (i : Nat) (s : State) : Deed → List Note
  | .step j =>
    if j = i then ((s.step i).journal.drop s.journal.length).map .signal ++ (s.growth i).map .entry
    else []
  | .start .. | .stop _ | .pass _ => []

def notes (i : Nat) : List Deed → State → List Note
  | [], _ => []
  | d :: ds, s => s.newNotes i d ++ notes i ds (s.perform d)

end State

/-! ### The story of a worker -/

def told (folder : String) (change : Option Event) : List Note :=
  change.toList.map fun e => .signal (.changed folder e)

namespace Cycle

def notes (y : Cycle) : List Note := y.entries.map .entry

def account (folder : String) (maxIdle : Duration) (y : Cycle) : List Note :=
  y.notes ++ told folder (y.change maxIdle)

end Cycle

/-- The opening of the folder, cycles with their reports, and a last cycle whose change has not
been reported yet. -/
def story (w : Worker) (opening : List Entry) (ys : List Cycle) (last : Option Cycle) : List Note :=
  opening.map .entry ++ ys.flatMap (Cycle.account w.folder w.settings.maxIdle) ++
    last.toList.flatMap Cycle.notes

inductive Tells (w : Worker) : List Note → Prop where
  | unconnected : w.plan = .connect ∨ w.plan = .wait → Tells w (story w [] [] none)
  | idling {c opening ys y} : w.plan = .report c (y.change w.settings.maxIdle) →
      Connection.Calm c → (∀ entry ∈ opening, entry.isIdle = false) →
      Tells w (story w opening ys (some y))
  | finished {notes} : w.plan.isOver = true → Tells w notes

namespace Tells

variable {w w' : Worker} {notes : List Note} {a : Attempt}

theorem of_eq (h : Tells w notes) (hplan : w'.plan = w.plan) (hfolder : w'.folder = w.folder)
    (hsettings : w'.settings = w.settings) : Tells w' notes := by
  have hstory : story w' = story w := by
    unfold story
    rw [hfolder, hsettings]
  cases h with
  | unconnected h =>
    rw [← hstory]
    rw [← hplan] at h
    exact .unconnected h
  | idling h calm quiet =>
    rw [← hstory]
    rw [← hplan, ← hsettings] at h
    exact .idling h calm quiet
  | finished h =>
    rw [← hplan] at h
    exact .finished h

end Tells

namespace State

variable {s : State} {i : Nat} {w : Worker} {notes : List Note} {signals : List Signal}

theorem newNotes_step (h : s.workers[i]? = some w)
    (hj : (s.share i w).journal = s.journal ++ signals) :
    s.newNotes i (.step i) = signals.map .signal ++
      ((w.next (s.connector s.attempts)).transcript.drop w.transcript.length).map .entry := by
  have journal : (s.step i).journal = s.journal ++ signals := by
    unfold step
    rw [h]
    exact hj
  simp only [newNotes, growth, if_true, journal, List.drop_left, h, worker_step h]

/-- A worker on its way to a connection has told nothing, and goes on to nothing but its first
cycle. -/
theorem tells_first (h : s.workers[i]? = some w) (hp : w.plan = .connect ∨ w.plan = .wait) :
    Tells (w.next (s.connector s.attempts)) (s.newNotes i (.step i)) := by
  generalize ha : s.connector s.attempts = a
  have journal : (s.share i w).journal = s.journal ++ [] := by
    rw [List.append_nil]
    unfold share
    rcases hp with hp | hp
    · rw [hp]
      rfl
    · rw [hp]
  have told := newNotes_step h journal
  rw [ha, Worker.transcript_of_unconnected hp] at told
  cases hnext : (w.next a).plan with
  | connect =>
    rw [told, Worker.transcript_of_unconnected (.inl hnext)]
    exact .unconnected (.inl hnext)
  | wait =>
    rw [told, Worker.transcript_of_unconnected (.inr hnext)]
    exact .unconnected (.inr hnext)
  | fail e => exact .finished (by rw [hnext]; rfl)
  | rest => exact .finished (by rw [hnext]; rfl)
  | report c change =>
    have grown := Worker.transcript_of_report hnext
    rcases hp with hp | hp
    · have receives : w.next a = w.receive a := by
        unfold Worker.next
        rw [hp]
      obtain ⟨calm, opening, y, quiet, ht, rfl⟩ := Worker.receive_report (receives ▸ hnext)
      have begins : story (w.next a) opening [] (some y) =
          (opening ++ y.entries).map .entry := by
        simp [story, Cycle.notes]
      rw [← (w.constant_next a).2] at hnext
      rw [told, grown, ht]
      exact begins ▸ Tells.idling hnext calm quiet
    · have waits : w.next a = w := by
        unfold Worker.next
        rw [hp]
      rw [waits, hp] at hnext
      cases hnext

theorem tells_step (h : s.workers[i]? = some w) (ht : Tells w notes) :
    Tells (w.next (s.connector s.attempts)) (notes ++ s.newNotes i (.step i)) := by
  cases ht with
  | finished hover => exact .finished (Worker.isOver_next hover)
  | unconnected hp => exact tells_first h hp
  | @idling c opening ys y hp calm quiet =>
    generalize ha : s.connector s.attempts = a
    obtain ⟨hfolder, hsettings⟩ := w.constant_next a
    by_cases held : w.hold.held = true
    · have journal : (s.share i w).journal =
          s.journal ++ (y.change w.settings.maxIdle).toList.map (.changed w.folder) := by
        unfold share
        rw [hp]
        exact congrArg State.journal (if_pos held)
      have told := newNotes_step h journal
      rw [ha] at told
      have idles : w.next a = w.idle c := by
        unfold Worker.next
        rw [hp]
        exact if_pos held
      rcases Worker.plan_idle c w with hover | ⟨c', change, hidle⟩
      · exact .finished (idles ▸ hover)
      · obtain ⟨calm', y', ht, rfl⟩ := Worker.idle_report hidle calm.outstanding
        rw [← idles] at hidle
        have grown : (w.next a).transcript.drop w.transcript.length = y'.entries := by
          rw [Worker.transcript_of_report hidle, Worker.transcript_of_report hp, ht]
          exact List.drop_left
        have goes : story (w.next a) opening (ys ++ [y]) (some y') = story w opening ys (some y) ++
            (Watch.told w.folder (y.change w.settings.maxIdle) ++ y'.notes) := by
          simp [story, hfolder, hsettings, Cycle.account]
        rw [← hsettings] at hidle
        rw [told, grown, List.map_map]
        exact goes ▸ Tells.idling hidle calm' quiet
    · have rests : w.next a = { w with plan := .rest } := by
        unfold Worker.next
        rw [hp]
        exact if_neg held
      exact .finished (by rw [rests]; rfl)

theorem tells_perform (h : s.workers[i]? = some w) (ht : Tells w notes) (d : Deed) :
    ∃ w', (s.perform d).workers[i]? = some w' ∧ Tells w' (notes ++ s.newNotes i d) := by
  refine ⟨_, worker_perform h d, ?_⟩
  cases d with
  | start folder settings => simpa [newNotes, afterDeed] using ht
  | pass span => simpa [newNotes, afterDeed] using ht
  | stop j =>
    rw [newNotes, List.append_nil]
    by_cases hj : j = i
    · rw [afterDeed, if_pos hj]
      exact ht.of_eq rfl rfl rfl
    · rw [afterDeed, if_neg hj]
      exact ht
  | step j =>
    by_cases hj : j = i
    · rw [afterDeed, if_pos hj, hj]
      exact tells_step h ht
    · rw [afterDeed, if_neg hj, newNotes, if_neg hj, List.append_nil]
      exact ht

theorem tells_run (h : s.workers[i]? = some w) (ht : Tells w notes) (ds : List Deed) :
    ∃ w', (s.run ds).workers[i]? = some w' ∧ Tells w' (notes ++ s.notes i ds) := by
  induction ds generalizing s w notes with
  | nil => exact ⟨w, h, by simpa [State.notes] using ht⟩
  | cons d ds ih =>
    obtain ⟨w₁, h₁, ht₁⟩ := tells_perform h ht d
    obtain ⟨w', h', ht'⟩ := ih h₁ ht₁
    exact ⟨w', h', by simpa [State.notes] using ht'⟩

/-- As long as there is no such worker, there are no notes of it. -/
theorem newNotes_absent (h : s.workers[i]? = none) (d : Deed) : s.newNotes i d = [] := by
  cases d with
  | step j =>
    by_cases hj : j = i
    · subst hj
      have still : s.step j = s := by
        unfold step
        rw [h]
      simp [newNotes, growth, still, h]
    · exact if_neg hj
  | _ => rfl

theorem tells_of_run (h : s.workers[i]? = none) (ds : List Deed)
    (hw : (s.run ds).workers[i]? = some w) : Tells w (s.notes i ds) := by
  induction ds generalizing s with
  | nil =>
    have hw : s.workers[i]? = some w := hw
    rw [h] at hw
    cases hw
  | cons d ds ih =>
    rw [State.notes, newNotes_absent h, List.nil_append]
    rcases absent_perform h d with absent | ⟨folder, settings, hold, -, hired⟩
    · exact ih absent hw
    · obtain ⟨w', h', tells⟩ := tells_run hired (.unconnected (.inl rfl)) ds
      have same : some w' = some w := h'.symm.trans hw
      cases same
      exact tells

end State

end MailClient.Watch
