import MailClient.Imap.Idle
import MailClient.Watch.Settings
import MailClient.Watch.WakeLock

/-! A worker keeps one folder under IDLE over a connection of its own. Between its dealings with
what workers share it is on its own: it connects, opens the folder and runs one IDLE command at a
time, and each stretch ends in a report or in a failure at some instant. -/
namespace MailClient.Watch

inductive Attempt where
  | failure (e : Imap.Error)
  /-- It does not come to an end. -/
  | never
  | stream (s : Wire.Stream) (settings : Imap.Settings)

inductive Plan where
  | connect
  | wait
  /-- It has run an IDLE command, perhaps up to a change of the folder. -/
  | report (c : Imap.Connection) (change : Option Imap.Event)
  | fail (e : Imap.Error)
  | rest

namespace Plan

def isActive : Plan → Bool
  | .connect | .report .. | .fail _ => true
  | .wait | .rest => false

/-- How far the worker is from its end: the stage it is in, and the octets still to come. -/
def load : Plan → Nat × Nat
  | .connect => (3, 0)
  | .report c _ => (2, c.unread)
  | .fail _ => (1, 0)
  | .wait | .rest => (0, 0)

end Plan

structure Worker where
  folder : String
  settings : Settings
  hold : Hold
  plan : Plan
  /-- When the plan is carried out. -/
  instant : Duration
  stream : Option Wire.Stream
  stopped : Option Duration

namespace Worker

open Imap (Connection Idling Event Error)

def hired (folder : String) (settings : Settings) (hold : Hold) (now : Duration) : Worker :=
  ⟨folder, settings, hold, .connect, now, none, none⟩

def failing (e : Error) (instant : Duration) (w : Worker) : Worker :=
  { w with plan := .fail e, instant := instant }

def failingOn (e : Error) (stream : Wire.Stream) (w : Worker) : Worker :=
  { w with plan := .fail e, instant := stream.clock, stream := some stream }

def awaitChange (deadline : Duration) (i : Idling) : Except Error (Option Event) × Idling :=
  let now := i.connection.stream.clock
  if deadline ≤ now then (.ok none, i)
  else match h : i.wait (deadline - now) with
    | (.error e, i') => (.error e, i')
    | (.ok e, i') =>
      if e.isFolderChange then (.ok (some e), i')
      else if hq : e.isQuiet then (.ok none, i')
      else
        have : i'.backlog < i.backlog := (Idling.unread_of_wait h).2.resolve_right hq
        awaitChange deadline i'
termination_by i.backlog

/-- Runs one IDLE command. A completion that comes too late after `DONE` is not waited for. -/
def idle (c : Connection) (w : Worker) : Worker :=
  match Idling.start c with
  | (.error e, c) => w.failingOn e c.stream
  | (.ok i, _) =>
    match awaitChange (i.connection.stream.clock + w.settings.maxIdle) i with
    | (.error e, i) => w.failingOn e i.connection.stream
    | (.ok change, i) =>
      let limit := i.connection.stream.clock + w.settings.doneLimit
      match i.done with
      | (r, c) =>
        let w := { w with stream := some c.stream }
        if limit < c.stream.clock then w.failing (.timeout w.settings.doneLimit) limit
        else match r with
          | .error e => w.failing e c.stream.clock
          | .ok _ => { w with plan := .report c change, instant := c.stream.clock }

def watch (c : Connection) (w : Worker) : Worker :=
  match Connection.learnCapabilities c with
  | (.error e, c) => w.failingOn e c.stream
  | (.ok _, c) =>
    if !c.hasCapability "IDLE" then w.failingOn (.violation .idleMissing) c.stream
    else
      let opening := if w.settings.readOnly then Connection.examine else Connection.select
      match opening w.folder c with
      | (.error e, c) => w.failingOn e c.stream
      | (.ok _, c) => w.idle c

def receive (a : Attempt) (w : Worker) : Worker :=
  match a with
  | .failure e => w.failing e w.instant
  | .never => { w with plan := .wait }
  | .stream stream settings =>
    match Connection.start { stream with clock := w.instant } settings with
    | (.error e, c) => w.failingOn e c.stream
    | (.ok (), c) => w.watch c

/-- Carries its plan out. A worker without a hold has been stopped, and does no more. -/
def next (a : Attempt) (w : Worker) : Worker :=
  match w.plan with
  | .connect => w.receive a
  | .report c _ => if w.hold.held then w.idle c else { w with plan := .rest }
  | .fail _ => { w with plan := .rest, hold := .loose }
  | .wait | .rest => w

def isDue (horizon : Duration) (w : Worker) : Bool :=
  w.stopped.isNone && w.plan.isActive && w.instant < horizon

def sentBefore (now : Duration) (w : Worker) : List Wire.Sent :=
  let horizon := min now (w.stopped.getD now)
  match w.stream with
  | none => []
  | some stream => stream.sent.filter fun s => s.instant < horizon

theorem unread_of_awaitChange {deadline : Duration} {i i' : Idling} {change : Option Event}
    (h : awaitChange deadline i = (.ok change, i')) :
    i'.connection.unread ≤ i.connection.unread := by
  fun_induction awaitChange deadline i
  case case1 =>
    simp only [Prod.mk.injEq] at h
    exact h.2 ▸ Nat.le_refl _
  case case2 => simp at h
  case case3 hw _ =>
    simp only [Prod.mk.injEq] at h
    exact h.2 ▸ (Idling.unread_of_wait hw).1
  case case4 hw _ _ =>
    simp only [Prod.mk.injEq] at h
    exact h.2 ▸ (Idling.unread_of_wait hw).1
  case case5 hw _ _ _ ih =>
    have := (Idling.unread_of_wait hw).1
    have := ih h
    omega

def Less (p q : Plan) : Prop := Prod.Lex (· < ·) (· < ·) p.load q.load

theorem less_of_stage {p q : Plan} (h : p.load.1 < q.load.1) : Less p q := Prod.Lex.left _ _ h

theorem less_failing {e : Error} {instant : Duration} {w : Worker} {q : Plan} (h : 1 < q.load.1) :
    Less (w.failing e instant).plan q := less_of_stage h

theorem less_failingOn {e : Error} {stream : Wire.Stream} {w : Worker} {q : Plan}
    (h : 1 < q.load.1) : Less (w.failingOn e stream).plan q := less_of_stage h

theorem less_idle (c : Connection) (change : Option Event) (w : Worker) :
    Less (w.idle c).plan (.report c change) := by
  have working : 1 < (Plan.report c change).load.1 := Nat.lt_succ_self 1
  unfold idle
  split
  · exact less_failingOn working
  next i _ hs =>
    have h₁ := Idling.unread_lt_of_start hs
    split
    · exact less_failingOn working
    next _ i' ha =>
      have h₂ := unread_of_awaitChange ha
      dsimp only
      split
      · exact less_failing working
      · split
        · exact less_failing working
        next hd =>
          have h₃ := Idling.unread_of_done (Prod.ext hd rfl)
          exact Prod.Lex.right _ (Nat.lt_of_le_of_lt (Nat.le_trans h₃ h₂) h₁)

theorem load_idle_lt (c : Connection) (w : Worker) : (w.idle c).plan.load.1 < 3 := by
  have h := less_idle c none w
  unfold Less at h
  rw [Prod.lex_def] at h
  rcases h with h | h
  · exact Nat.lt_succ_of_lt h
  · exact h.1 ▸ Nat.lt_succ_self 2

theorem less_watch (c : Connection) (w : Worker) : Less (w.watch c).plan .connect := by
  have working : 1 < Plan.connect.load.1 := by decide
  unfold watch
  split
  · exact less_failingOn working
  · split
    · exact less_failingOn working
    · dsimp only
      split
      · exact less_failingOn working
      · exact less_of_stage (load_idle_lt _ w)

theorem less_receive (a : Attempt) (w : Worker) : Less (w.receive a).plan .connect := by
  have working : 1 < Plan.connect.load.1 := by decide
  unfold receive
  split
  · exact less_failing working
  · exact less_of_stage (by simp [Plan.load])
  · split
    · exact less_failingOn working
    · exact less_watch _ w

theorem less_next (a : Attempt) {w : Worker} (h : w.plan.isActive) :
    Less (w.next a).plan w.plan := by
  unfold next
  split
  next hp => exact hp ▸ less_receive a w
  next c change hp =>
    split
    · exact hp ▸ less_idle c change w
    · exact hp ▸ less_of_stage (by simp [Plan.load])
  next hp => exact hp ▸ less_of_stage (by simp [Plan.load])
  next hp => simp [hp, Plan.isActive] at h
  next hp => simp [hp, Plan.isActive] at h

end Worker
end MailClient.Watch
