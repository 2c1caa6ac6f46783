import MailClient.Proofs.Watch.Cycle
import MailClient.Proofs.Watch.Protocol
import MailClient.Proofs.Watch.Run

/-! What a worker says, from stage to stage, as it connects, opens its folder and idles. -/
namespace MailClient.Watch

open Imap (Awaited Command Completion Connection Entry Idling Incident Response Tag Transfer)
open Imap.Connection (Course Step)

namespace Stage

structure Fits (s : Stage) (c : Connection) : Prop where
  usable : c.usable = true
  outstanding : c.outstanding = s.tag?.toList
  /-- Only the name of the folder can be a literal. -/
  pending : ∀ t ∈ c.pending, s = .opening t.tag

def Moves (select : Command) (s : Stage) (c : Connection) (s' : Stage) (c' : Connection) : Prop :=
  ∃ incidents, Course True c incidents c' ∧ Talks select s incidents s'

variable {select command : Command} {s s' s₁ after : Stage} {c c' c₁ : Connection} {tag : Tag}
  {r : Response} {limit : Duration} {e : Imap.Error} {entry : Entry} {bytes : Bytes}
  {incidents : List Incident} {α : Type}

theorem Moves.refl (s : Stage) (c : Connection) : Moves select s c s c := ⟨[], .refl c, .refl s⟩

theorem Moves.trans (h : Moves select s c s₁ c₁) (h' : Moves select s₁ c₁ s' c') :
    Moves select s c s' c' := by
  obtain ⟨before, course, talks⟩ := h
  obtain ⟨after, course', talks'⟩ := h'
  exact ⟨before ++ after, course.trans course', talks.trans talks'⟩

theorem Moves.quiet (h : Step True c [] c') : Moves select s c s c' := ⟨[], .single h, .refl s⟩

theorem Moves.single {i : Incident} (h : Step True c [i] c') (turn : Turn select s i s') :
    Moves select s c s' c' := ⟨[i], .single h, turn.talks⟩

theorem Moves.misfit (h : Moves select s c s₁ c₁) (v : Imap.Violation) :
    Moves select s c mute c₁.poison :=
  h.trans (.single (.misfit c₁ v) (.upset s₁ rfl rfl))

inductive Goes (select : Command) (s : Stage) (c : Connection) (after : α → Stage) :
    Except Imap.Error α × Connection → Prop where
  | done {a : α} {c' : Connection} : Moves select s c (after a) c' → Fits (after a) c' →
      Goes select s c after (.ok a, c')
  | failed {e : Imap.Error} {c' : Connection} (s' : Stage) : Moves select s c s' c' →
      Goes select s c after (.error e, c')

theorem Goes.ok {p : Except Imap.Error α × Connection} {after : α → Stage} {a : α}
    (h : Goes select s c after p) (hp : p = (.ok a, c')) :
    Moves select s c (after a) c' ∧ Fits (after a) c' := by
  subst hp
  cases h with
  | done moves fits => exact ⟨moves, fits⟩

/-- A failure leads somewhere, too. -/
theorem Goes.error {p : Except Imap.Error α × Connection} {after : α → Stage}
    (h : Goes select s c after p) (hp : p = (.error e, c')) : ∃ s', Moves select s c s' c' := by
  subst hp
  cases h with
  | failed s' moves => exact ⟨s', moves⟩

/-! ### Writing -/

theorem Fits.pending_eq (h : Fits s c) (hs : s.tag? = none) : c.pending = none := by
  refine Option.eq_none_iff_forall_ne_some.mpr fun t ht => ?_
  rw [h.pending t ht] at hs
  cases hs

inductive Reads (select : Command) (s : Stage) (c : Connection) :
    Except Imap.Error Response × Connection → Prop where
  | heard {r : Response} {c' : Connection} : (∀ tag ∈ r.tag?, s.tag? = some tag) →
      Moves select s c (s.hear r) c' → Fits (s.hear r) c' → Reads select s c (.ok r, c')
  | silent {e : Imap.Error} {c' : Connection} : Moves select s c s c' → Fits s c' →
      Reads select s c (.error e, c')
  | lost {e : Imap.Error} {c' : Connection} (s' : Stage) : Moves select s c s' c' →
      c'.usable = false → Reads select s c (.error e, c')

theorem Reads.ok {p : Except Imap.Error Response × Connection} (h : Reads select s c p)
    (hp : p = (.ok r, c')) : (∀ tag ∈ r.tag?, s.tag? = some tag) ∧
      Moves select s c (s.hear r) c' ∧ Fits (s.hear r) c' := by
  subst hp
  cases h with
  | heard known moves fits => exact ⟨known, moves, fits⟩

theorem Reads.error {p : Except Imap.Error Response × Connection} (h : Reads select s c p)
    (hp : p = (.error e, c')) : (∃ s', Moves select s c s' c') ∧
      (c'.usable = true → Moves select s c s c' ∧ Fits s c') := by
  subst hp
  cases h with
  | silent moves fits => exact ⟨⟨s, moves⟩, fun _ => ⟨moves, fits⟩⟩
  | lost s' moves hu =>
    refine ⟨⟨s', moves⟩, fun usable => ?_⟩
    rw [hu] at usable
    cases usable

/-- A response changes the stage as it changes what is under way on the connection. -/
theorem Fits.settle {r' : Response} (fits : Fits s c)
    (drained : (Incident.heard r).isRequest = true → c.pending = none)
    (hs : c.settle r = (.ok r', c')) :
    (∀ tag ∈ r.tag?, s.tag? = some tag) ∧ Fits (s.hear r) c' := by
  obtain ⟨-, known, capabilities, pending, hpending, rfl⟩ := Connection.settle_ok hs
  rw [fits.outstanding] at known
  refine ⟨fun tag ht => Option.mem_toList.mp (known tag ht), fits.usable, ?_, ?_⟩
  · change r.unsettled c.outstanding = _
    rw [fits.outstanding]
    cases r with
    | tagged tag status code text =>
      have underWay : s.tag? = some tag := Option.mem_toList.mp (known tag rfl)
      rw [underWay, tag?_hear_tagged]
      simp [Response.unsettled, Response.tag?]
    | untagged u => rfl
    | continuation prompt => exact congrArg Option.toList (tag?_admitted s).symm
  · intro t ht
    obtain ⟨waits, other⟩ := hpending t ht
    obtain rfl := fits.pending t waits
    cases r with
    | tagged tag status code text =>
      have underWay : some t.tag = some tag := Option.mem_toList.mp (known tag rfl)
      exact (other underWay.symm).elim
    | untagged u => rfl
    | continuation prompt => rfl

def concluded (tag : Tag) (s : Stage) (completion : Completion) : Stage :=
  s.hear (.tagged tag completion.status completion.code completion.text)

/-- The choice of a tag says nothing. -/
theorem Fits.nextTag (fits : Fits s c) :
    Moves select s c s c.nextTag.2 ∧ Fits s c.nextTag.2 :=
  ⟨.quiet (.tag c), fits.usable, fits.outstanding, fits.pending⟩

variable {i i' : Idling}

end Stage

/-! ### Workers -/

namespace Worker

open Stage (Fits Moves Goes Talks)

variable {select : Command} {s s' : Stage} {c c' : Connection} {w : Worker}

def opening (w : Worker) : Command :=
  (Command.named (if w.settings.readOnly then "EXAMINE" else "SELECT")).withArgument
    (.ofText w.folder)

inductive Advances (select : Command) (s : Stage) (c : Connection) (w : Worker) : Prop where
  | ready {c' : Connection} {change : Option Imap.Event} : Moves select s c .ready c' →
      Fits .ready c' → w.plan = .report c' change → w.stream = some c'.stream →
      Advances select s c w
  | finished {c' : Connection} {s' : Stage} : Moves select s c s' c' → w.plan.isOver = true →
      w.stream = some c'.stream → Advances select s c w

inductive Speaks (connector : Nat → Attempt) (w : Worker) : Prop where
  | unconnected : w.stream = none → (∀ c change, w.plan ≠ .report c change) → Speaks connector w
  | connected {n : Nat} {stream : Wire.Stream} {settings : Imap.Settings} (clock : Duration) :
      connector n = .stream stream settings →
      Advances w.opening .fresh (.fresh { stream with clock := clock } settings) w →
      Speaks connector w

variable {connector : Nat → Attempt}

/-- A worker that is stopped has said what it has said. -/
theorem Speaks.stopped (h : Speaks connector w) (now : Duration) :
    Speaks connector { w with hold := .loose, stopped := some now } := by
  cases h with
  | unconnected hs quiet => exact .unconnected hs quiet
  | connected clock ha advances =>
    refine .connected clock ha ?_
    cases advances with
    | ready moves fits hp hs => exact .ready moves fits hp hs
    | finished moves hp hs => exact .finished moves hp hs

end Worker

/-! ### Runs -/

namespace State

open Worker (Speaks)

variable {s : State} {i : Nat} {w : Worker}

end State
end MailClient.Watch
