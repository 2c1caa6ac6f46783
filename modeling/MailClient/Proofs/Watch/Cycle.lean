import MailClient.Proofs.Imap.Idling
import MailClient.Watch.Worker

/-! One IDLE command of a worker, and which of the responses in it the worker looks at. It looks at
those from before the request to continue and at those it waits for, one by one up to the first
change, but not at those that come after `DONE`. -/
namespace MailClient.Watch

open Imap (Connection Entry Event Idling Tag Token Untagged)
open Imap.Idling (Alone Waited said)

structure Cycle where
  tag : Tag
  /-- What came before the request to continue. -/
  entering : List Untagged
  prompt : String
  waiting : List Untagged
  /-- What came after `DONE`, unless the server ended the command by itself. -/
  leaving : Option (List Untagged)
  code : Option (List Token)
  text : String

namespace Cycle

def exchange (y : Cycle) : List Entry :=
  said y.entering ++ [.response (.continuation y.prompt)] ++ said y.waiting ++
    (match y.leaving with
      | none => []
      | some us => .line "DONE" :: said us) ++ [.response (.tagged y.tag .ok y.code y.text)]

def entries (y : Cycle) : List Entry := .command y.tag (.named "IDLE") :: y.exchange

def heard (y : Cycle) : List Untagged := y.entering ++ y.waiting ++ y.leaving.getD []

/-- The responses that the worker looks at. -/
def delivered (maxIdle : Duration) (y : Cycle) : List Untagged :=
  if maxIdle = 0 then [] else y.entering ++ y.waiting

def change (maxIdle : Duration) (y : Cycle) : Option Event :=
  ((y.delivered maxIdle).map Event.ofUntagged).find? Event.isFolderChange

end Cycle

def Plan.isOver : Plan → Bool
  | .fail _ | .rest => true
  | .connect | .wait | .report .. => false

namespace Worker

variable {i i' : Idling} {deadline : Duration} {change : Option Event} {c c' : Connection}
  {w : Worker}

structure Listened (i : Idling) (us : List Untagged) (i' : Idling) : Prop where
  alone : Alone i'
  tag : i'.tag = i.tag
  transcript : ∃ last, i'.connection.transcript = i.connection.transcript ++ said us ++ last ∧
    if i'.ended then ∃ code text, last = [.response (.tagged i.tag .ok code text)] else last = []

theorem Listened.refl (hi : Alone i) (he : i.ended = false) : Listened i [] i := by
  refine ⟨hi, rfl, [], by simp, ?_⟩
  rw [he]
  rfl

theorem Listened.trans {i₁ : Idling} {us vs : List Untagged} (h₁ : Listened i us i₁)
    (he : i₁.ended = false) (h₂ : Listened i₁ vs i') : Listened i (us ++ vs) i' := by
  obtain ⟨last₁, ht₁, hlast₁⟩ := h₁.transcript
  obtain ⟨last₂, ht₂, hlast₂⟩ := h₂.transcript
  rw [he] at hlast₁
  obtain rfl : last₁ = [] := hlast₁
  rw [h₁.tag] at hlast₂
  exact ⟨h₂.alone, h₂.tag.trans h₁.tag, last₂, by rw [ht₂, ht₁]; simp, hlast₂⟩

/-- A wait gives the worker the next of the responses, or none where none is left. -/
theorem listened_of_waited {e : Event} (h : Waited i e i') (hi : Alone i) (he : i.ended = false) :
    ∃ us, Listened i us i' ∧
      ((∃ u, e = .ofUntagged u ∧ i'.ended = false ∧ i.early ++ us = u :: i'.early ∧
          (i'.early = [] ∨ i'.connection = i.connection)) ∨
        e.isQuiet = true ∧ i.early ++ us = []) := by
  obtain ⟨alone, htag⟩ := h.alone hi
  cases h with
  | @early u rest hearly =>
    refine ⟨[], ⟨alone, htag, [], by simp, ?_⟩, .inl ⟨u, rfl, he, by simp [hearly], .inr rfl⟩⟩
    rw [he]
    rfl
  | finished _ hended =>
    rw [he] at hended
    cases hended
  | silence hearly _ unheard =>
    refine ⟨[], ⟨alone, htag, [], by simp [unheard.transcript_eq hi.pending], ?_⟩,
      .inr ⟨rfl, by simp [hearly]⟩⟩
    rw [he]
    rfl
  | @report c u hearly _ heard =>
    refine ⟨[u], ⟨alone, htag, [], by simp [heard.transcript_eq hi.pending], ?_⟩,
      .inl ⟨u, rfl, he, by simp [hearly], .inl hearly⟩⟩
    rw [he]
    rfl
  | @completed c tag code text hearly hended heard =>
    obtain rfl := hi.tag_eq hended heard
    exact ⟨[], ⟨alone, htag, [.response (.tagged i.tag .ok code text)],
      by simp [heard.transcript_eq hi.pending], code, text, rfl⟩, .inr ⟨rfl, by simp [hearly]⟩⟩

/-- The worker looks at the responses one by one up to the first change, unless it is too late to
look at any. -/
theorem awaitChange_ok (h : awaitChange deadline i = (.ok change, i')) (hi : Alone i)
    (he : i.ended = false) : ∃ us, Listened i us i' ∧
      if deadline ≤ i.connection.stream.clock then us = [] ∧ change = none
      else change = ((i.early ++ us).map Event.ofUntagged).find? Event.isFolderChange := by
  fun_induction awaitChange deadline i with
  | case1 i now hd =>
    cases h
    exact ⟨[], .refl hi he, by rw [if_pos hd]; exact ⟨rfl, rfl⟩⟩
  | case2 => cases h
  | case3 i now hd e i₁ hw hchange =>
    cases h
    obtain ⟨us, listened, ⟨u, rfl, -, hnext, -⟩ | ⟨hquiet, -⟩⟩ :=
      listened_of_waited (Idling.wait_ok hw) hi he
    · refine ⟨us, listened, ?_⟩
      rw [if_neg hd, hnext, List.map_cons, List.find?_cons_of_pos hchange]
    · cases e <;> simp [Event.isQuiet, Event.isFolderChange] at hquiet hchange
  | case4 i now hd e i₁ hw hchange hq =>
    cases h
    obtain ⟨us, listened, ⟨u, rfl, -⟩ | ⟨-, hnone⟩⟩ :=
      listened_of_waited (Idling.wait_ok hw) hi he
    · rw [Idling.isQuiet_ofUntagged] at hq
      cases hq
    · refine ⟨us, listened, ?_⟩
      rw [if_neg hd, hnone]
      rfl
  | case5 i now hd e i₁ hw hchange hq _ ih =>
    obtain ⟨us, listened, ⟨u, rfl, he₁, hnext, hrest⟩ | ⟨hquiet, -⟩⟩ :=
      listened_of_waited (Idling.wait_ok hw) hi he
    · obtain ⟨vs, listened₁, hfound⟩ := ih h listened.alone he₁
      refine ⟨us ++ vs, listened.trans he₁ listened₁, ?_⟩
      rw [if_neg hd, ← List.append_assoc, hnext, List.cons_append, List.map_cons,
        List.find?_cons_of_neg hchange]
      -- It can only have become too late by waiting, and then nothing is left from before.
      split at hfound
      next hlate =>
        obtain ⟨rfl, rfl⟩ := hfound
        rcases hrest with hrest | hrest
        · rw [hrest]
          rfl
        · rw [hrest] at hlate
          exact absurd hlate hd
      · exact hfound
    · exact absurd hquiet hq

/-- The worker waits for no time at all only if it may not idle at all. -/
theorem change_of_deadline {y : Cycle} {clock maxIdle : Duration}
    (h : if clock + maxIdle ≤ clock then y.waiting = [] ∧ change = none
      else change = ((y.entering ++ y.waiting).map Event.ofUntagged).find? Event.isFolderChange) :
    change = y.change maxIdle := by
  unfold Cycle.change Cycle.delivered
  by_cases hm : maxIdle = 0
  · have hd : clock + maxIdle ≤ clock := hm ▸ Nat.le_refl clock
    rw [if_pos hd] at h
    rw [if_pos hm, h.2]
    rfl
  · have hd : clock < clock + maxIdle := Nat.lt_add_of_pos_right (Nat.pos_of_ne_zero hm)
    rw [if_neg (Nat.not_le_of_lt hd)] at h
    rw [if_neg hm]
    exact h

/-- A cycle that leads to a report is heard as a whole, and the report is its first change among
the responses that the worker looks at. -/
theorem idle_report (h : (w.idle c).plan = .report c' change) (hc : c.outstanding = []) :
    Connection.Calm c' ∧ ∃ y : Cycle, c'.transcript = c.transcript ++ y.entries ∧
      change = y.change w.settings.maxIdle := by
  unfold idle at h
  split at h
  · cases h
  next i _ hs =>
    obtain ⟨alone, hended, prompt, ht⟩ := Idling.start_ok hs hc
    split at h
    · cases h
    next change' i' ha =>
      obtain ⟨us, ⟨alone', htag, last, ht', hlast⟩, hfound⟩ := awaitChange_ok ha alone hended
      generalize hd : i'.done = p at h
      obtain ⟨r, c₁⟩ := p
      dsimp only at h
      split at h
      · cases h
      · split at h
        · cases h
        next rs =>
          cases h
          obtain ⟨calm, hleft⟩ := Idling.done_ok hd alone'
          refine ⟨calm, ?_⟩
          split at hleft
          next hover =>
            rw [if_pos hover] at hlast
            obtain ⟨code, text, rfl⟩ := hlast
            refine ⟨⟨i.tag, i.early, prompt, us, none, code, text⟩, ?_, change_of_deadline hfound⟩
            rw [hleft, ht', ht]
            simp [Cycle.entries, Cycle.exchange]
          next hover =>
            rw [if_neg hover] at hlast
            subst hlast
            obtain ⟨us', code, text, ht''⟩ := hleft
            refine ⟨⟨i.tag, i.early, prompt, us, some us', code, text⟩, ?_,
              change_of_deadline hfound⟩
            rw [ht'', ht', ht, htag]
            simp [Cycle.entries, Cycle.exchange]

/-! ### Opening the folder -/

variable {a : Attempt} {before : List Entry}

/-- A command other than IDLE, with what is heard up to its completion, leaves the entries without
an IDLE command. -/
theorem quiet_append {tag : Tag} {command : Imap.Command} {log : List Entry}
    (hb : ∀ entry ∈ before, entry.isIdle = false) (hn : command.name ≠ "IDLE")
    (hl : ∀ entry ∈ log, entry.isCommand = false) :
    ∀ entry ∈ before ++ .command tag command :: log, entry.isIdle = false := by
  intro entry he
  rcases List.mem_append.mp he with he | he
  · exact hb entry he
  · rcases List.mem_cons.mp he with rfl | he
    · exact beq_false_of_ne hn
    · exact Connection.isIdle_of_not_isCommand (hl entry he)

theorem watch_report (h : (w.watch c).plan = .report c' change) (hc : Connection.Calm c)
    (hq : ∀ entry ∈ c.transcript, entry.isIdle = false) :
    Connection.Calm c' ∧ ∃ (opening : List Entry) (y : Cycle),
      (∀ entry ∈ opening, entry.isIdle = false) ∧ c'.transcript = opening ++ y.entries ∧
      change = y.change w.settings.maxIdle := by
  unfold watch at h
  split at h
  · cases h
  next c₁ hlearn =>
    obtain ⟨calm₁, grown⟩ := Connection.learnCapabilities_ok hlearn hc
    have quiet₁ : ∀ entry ∈ c₁.transcript, entry.isIdle = false := by
      rcases grown with ht | ⟨tag, log, hlog, ht⟩
      · rw [ht]
        exact hq
      · rw [ht]
        exact quiet_append hq (by decide) hlog
    split at h
    · cases h
    · dsimp only at h
      split at h
      · cases h
      next done c₂ hopen =>
        obtain ⟨command, hname, hexecute⟩ : ∃ command : Imap.Command, command.name ≠ "IDLE" ∧
            Connection.execute command c₁ = (.ok done, c₂) := by
          split at hopen
          · exact ⟨_, (by decide : "EXAMINE" ≠ "IDLE"), hopen⟩
          · exact ⟨_, (by decide : "SELECT" ≠ "IDLE"), hopen⟩
        obtain ⟨calm₂, -, tag, log, hlog, ht⟩ := Connection.execute_ok hexecute calm₁
        obtain ⟨calm, y, ht', hchange⟩ := idle_report h calm₂.outstanding
        refine ⟨calm, c₂.transcript, y, ?_, ht', hchange⟩
        rw [ht]
        exact quiet_append quiet₁ hname hlog

/-- Up to its first report a worker says nothing but what opens the folder, and then idles once. -/
theorem receive_report (h : (w.receive a).plan = .report c change) :
    Connection.Calm c ∧ ∃ (opening : List Entry) (y : Cycle),
      (∀ entry ∈ opening, entry.isIdle = false) ∧ c.transcript = opening ++ y.entries ∧
      change = y.change w.settings.maxIdle := by
  cases a with
  | failure e => cases h
  | never => cases h
  | stream stream settings =>
    unfold receive at h
    dsimp only at h
    split at h
    · cases h
    next c₁ hs =>
      obtain ⟨calm, quiet⟩ := Connection.greet_ok hs
      exact watch_report h calm fun entry he => Connection.isIdle_of_not_isCommand (quiet entry he)

/-! ### What a worker never does -/

theorem isOver_next (h : w.plan.isOver = true) : (w.next a).plan.isOver = true := by
  unfold next
  split
  next hp =>
    rw [hp] at h
    cases h
  next hp =>
    rw [hp] at h
    cases h
  · rfl
  next hp =>
    rw [hp] at h
    cases h
  · exact h

/-- An IDLE command ends in a report or in a failure. -/
theorem plan_idle (c : Connection) (w : Worker) :
    (w.idle c).plan.isOver = true ∨ ∃ c' change, (w.idle c).plan = .report c' change := by
  unfold idle
  split
  · exact .inl rfl
  · split
    · exact .inl rfl
    · dsimp only
      split
      · exact .inl rfl
      · split
        · exact .inl rfl
        · exact .inr ⟨_, _, rfl⟩

theorem constant_idle (c : Connection) (w : Worker) :
    (w.idle c).folder = w.folder ∧ (w.idle c).settings = w.settings := by
  unfold idle
  split
  · exact ⟨rfl, rfl⟩
  · split
    · exact ⟨rfl, rfl⟩
    · dsimp only
      split
      · exact ⟨rfl, rfl⟩
      · split
        · exact ⟨rfl, rfl⟩
        · exact ⟨rfl, rfl⟩

theorem constant_watch (c : Connection) (w : Worker) :
    (w.watch c).folder = w.folder ∧ (w.watch c).settings = w.settings := by
  unfold watch
  split
  · exact ⟨rfl, rfl⟩
  · split
    · exact ⟨rfl, rfl⟩
    · dsimp only
      split
      · exact ⟨rfl, rfl⟩
      · exact constant_idle _ w

theorem constant_next (a : Attempt) (w : Worker) :
    (w.next a).folder = w.folder ∧ (w.next a).settings = w.settings := by
  unfold next
  split
  · unfold receive
    split
    · exact ⟨rfl, rfl⟩
    · exact ⟨rfl, rfl⟩
    · split
      · exact ⟨rfl, rfl⟩
      · exact constant_watch _ w
  · split
    · exact constant_idle _ w
    · exact ⟨rfl, rfl⟩
  · exact ⟨rfl, rfl⟩
  · exact ⟨rfl, rfl⟩
  · exact ⟨rfl, rfl⟩

end Worker
end MailClient.Watch
