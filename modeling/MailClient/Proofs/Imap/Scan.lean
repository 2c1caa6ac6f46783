import MailClient.Imap.Parse
import MailClient.Proofs.Wire.Seamless

/-! Octets that are all at hand are read without buffers and positions: `scan` finds the response
that stands in front of them, if there is one. A line is allowed to be too long only until it is
measured, and nothing is found after that. -/
namespace MailClient.Imap.Parse

variable {l : Limits} {m m' : Mode} {s s' : State} {r : Response} {b : UInt8} {bs rest : Bytes}

/-- Reads in a mode, with the octets of the line so far, up to the end of a response. -/
def scan (l : Limits) : Mode → Nat → Bytes → Option (Response × Bytes)
  | _, _, [] => none
  | m, n, b :: bs =>
    match step l m b with
    | .run m' | .begin m' | .take m' => if n < l.line then scan l m' (n + 1) bs else none
    | .newLine m' => if n < l.line then scan l m' 0 bs else none
    | .finish r => if n < l.line then some (r, bs) else none
    | .store m' => if n ≤ l.line then scan l m' n bs else none
    | .stored _ m' => if n ≤ l.line then scan l m' 0 bs else none
    | .refuse _ | .reject _ => none

/-- Nothing is found once the line is too long, though that may show only at the end of a run. -/
theorem not_done_of_tooLong (hs : l.line < s.line) : consume l s bs ≠ .done r rest := by
  induction bs generalizing s with
  | nil => simp [consume, State.tooLong, hs]
  | cons b bs ih =>
    rw [consume]
    generalize step l s.mode b = move
    cases move with
    | run mode =>
      simp only [Move.endsRun, Move.isMeasured, Bool.false_and, Bool.false_eq_true, if_false]
      exact ih (Nat.lt_succ_of_lt hs)
    | _ => simp [Move.endsRun, State.tooLong, hs]

/-- What is read from octets at hand does not depend on where the response began. -/
theorem consume_eq_done_iff :
    consume l s bs = .done r rest ↔ scan l s.mode s.line bs = some (r, rest) := by
  induction bs generalizing s with
  | nil =>
    rw [consume, scan]
    split <;> simp
  | cons b bs ih =>
    rw [consume, scan]
    generalize step l s.mode b = move
    have beyond (hs : l.line ≤ s.line) (mode : Mode) :
        consume l (s.advance mode) bs ≠ .done r rest :=
      not_done_of_tooLong (Nat.lt_succ_of_le hs)
    rcases Nat.lt_trichotomy s.line l.line with hs | hs | hs
    · have within : ¬ l.line < s.line := Nat.lt_asymm hs
      have after : ¬ l.line < s.line + 1 := Nat.not_lt_of_le hs
      cases move <;> simp [Move.endsRun, Move.isMeasured, State.tooLong, State.advance, hs, within,
        after, Nat.le_of_lt hs, ih]
    · have after : l.line < (s.advance s.mode).line := hs ▸ Nat.lt_succ_self s.line
      cases move <;> simp [Move.endsRun, Move.isMeasured, State.tooLong, hs, after,
        beyond (Nat.le_of_eq hs.symm), ih]
    · cases move <;> simp [Move.endsRun, Move.isMeasured, State.tooLong, hs,
        beyond (Nat.le_of_lt hs), Nat.not_le_of_lt hs, Nat.lt_asymm hs]

theorem scan_of_tooLong {n : Nat} (h : l.line < n) : scan l m n bs = none := by
  rw [Option.eq_none_iff_forall_ne_some]
  rintro ⟨r, rest⟩ hr
  exact not_done_of_tooLong (s := ⟨m, 0, n⟩) h (consume_eq_done_iff.mpr hr)

/-! ### Pieces -/

/-- What is found does not change with what comes later. -/
theorem scan_append {n : Nat} {later : Bytes} (h : scan l m n bs = some (r, rest)) :
    scan l m n (bs ++ later) = some (r, rest ++ later) := by
  induction bs generalizing m n with
  | nil => simp [scan] at h
  | cons b bs ih =>
    rw [List.cons_append, scan]
    rw [scan] at h
    split at h <;> simp_all

theorem consume_more {later : Bytes} (h : consume l s bs = .more s') :
    consume l s (bs ++ later) = consume l s' later := by
  induction bs generalizing s with
  | nil =>
    rw [consume] at h
    split at h
    · simp at h
    · cases h
      rfl
  | cons b bs ih =>
    rw [List.cons_append, consume]
    rw [consume] at h
    generalize step l s.mode b = move at h ⊢
    split at h
    · simp at h
    next hr =>
      split at h
      · simp at h
      next hm =>
        rw [if_neg hr, if_neg hm]
        cases move <;> simp_all

theorem consume_split {later : Bytes} (h : consume l s (bs ++ later) = .done r rest) :
    (∃ s', consume l s bs = .more s' ∧ consume l s' later = .done r rest) ∨
      ∃ left, consume l s bs = .done r left ∧ rest = left ++ later := by
  induction bs generalizing s with
  | nil =>
    have hs : ¬ s.tooLong l = true := fun hs => not_done_of_tooLong (of_decide_eq_true hs) h
    exact .inl ⟨s, if_neg hs, h⟩
  | cons b bs ih =>
    rw [consume]
    rw [List.cons_append, consume] at h
    generalize step l s.mode b = move at h ⊢
    split at h
    · simp at h
    next hr =>
      split at h
      · simp at h
      next hm =>
        rw [if_neg hr, if_neg hm]
        cases move with
        | finish r' =>
          simp only [Wire.Progress.done.injEq] at h
          exact .inr ⟨bs, by rw [h.1], h.2.symm⟩
        | refuse | reject => simp at h
        | _ => exact ih h

theorem seamless : (framing l).Seamless where
  more _ h := consume_more h
  done _ h := consume_eq_done_iff.mpr (scan_append (consume_eq_done_iff.mp h))
  split h := consume_split h

/-! ### Responses under way -/

def Move.next? : Move → Option Mode
  | .run m | .begin m | .take m | .newLine m | .store m | .stored _ m => some m
  | .finish _ | .refuse _ | .reject _ => none

theorem step_ne_start (l : Limits) (m : Mode) (b : UInt8) : (step l m b).next? ≠ some .start := by
  cases m <;> simp only [step, expect, lineEnd, lineFeed, textStep, codeStep, gapStep, codeGapStep,
    closeStep, openStep, tokensEndStep, tokensStep, quotedStep, escapeStep, braceStep, sizeStep,
    literalMode, payloadStep, tagStep] <;> grind [Move.next?]

/-- A response has begun as soon as there is an octet of it. -/
theorem mode_ne_start (h : consume l s bs = .more s') (hs : bs ≠ [] ∨ s.mode ≠ .start) :
    s'.mode ≠ .start := by
  induction bs generalizing s with
  | nil =>
    rw [consume] at h
    split at h
    · cases h
    · cases h
      exact hs.resolve_left (by simp)
  | cons b bs ih =>
    have hn := step_ne_start l s.mode b
    rw [consume] at h
    generalize step l s.mode b = move at h hn
    split at h
    · cases h
    · split at h
      · cases h
      · cases move with
        | finish | refuse | reject => cases h
        | _ =>
          refine ih h (.inr ?_)
          rintro rfl
          exact hn rfl

/-! ### Limits -/

theorem step_congr {l' : Limits} (h : l.spill = l'.spill) (m : Mode) (b : UInt8) :
    step l m b = step l' m b := by
  cases m <;> simp only [step, payloadStep, literalMode, h]

/-- Under a tighter limit the same is read, or a line is too long. -/
theorem consume_tighter {l' : Limits} (hs : l.spill = l'.spill) (hl : l.line ≤ l'.line) (s : State)
    (bs : Bytes) : consume l s bs = consume l' s bs ∨ ∃ e rest, consume l s bs = .broken e rest ∧
      ∃ position, e = .malformed position (.lineTooLong l.line) := by
  have loose (s : State) (h : ¬ s.tooLong l = true) : ¬ s.tooLong l' = true := by
    simp only [State.tooLong, decide_eq_true_eq] at h ⊢
    omega
  induction bs generalizing s with
  | nil =>
    rw [consume, consume]
    split
    · exact .inr ⟨_, _, rfl, _, rfl⟩
    next h => exact .inl (if_neg (loose s h)).symm
  | cons b bs ih =>
    rw [consume, consume, step_congr hs]
    generalize step l' s.mode b = move
    split
    · exact .inr ⟨_, _, rfl, _, rfl⟩
    next hr =>
      split
      · exact .inr ⟨_, _, rfl, _, rfl⟩
      next hm =>
        rw [Bool.and_eq_true, not_and] at hr hm
        rw [if_neg (by simpa using fun h => by simpa using loose s (hr h)),
          if_neg (by simpa using fun h => by simpa using loose _ (hm h))]
        cases move with
        | finish | refuse | reject => exact .inl rfl
        | _ => exact ih _

theorem pull_tighter {l' : Limits} (hs : l.spill = l'.spill) (hl : l.line ≤ l'.line)
    (i : Wire.Inbox) (deadline now : Duration) :
    i.pull (framing l) deadline now = i.pull (framing l') deadline now ∨
      ∃ position, (i.pull (framing l) deadline now).1 =
        .broken (.malformed position (.lineTooLong l.line)) := by
  have stricter := consume_tighter hs hl
  rcases Wire.Inbox.pull_of_stricter (f := framing l') (g := framing l) rfl rfl stricter i deadline
    now with h | ⟨e, ⟨position, rfl⟩, h⟩
  · exact .inl h
  · exact .inr ⟨position, h⟩

end MailClient.Imap.Parse
