import MailClient.Proofs.Imap.Soundness

/-! Responses do not depend on how their octets are cut. Two readers of the same octets agree on
every response and on the failure after the last one; only where a line turns out too long depends
on the cuts. A failure tells how many octets were taken before it. -/
namespace MailClient.Imap.Parse

open Grammar

variable {l : Limits} {m : Mode} {s s' : State} {r : Response} {b : UInt8}
  {bs rest taken : Bytes} {e : Failure}

namespace Failure

inductive Same : Failure → Failure → Prop where
  | refl (e : Failure) : Same e e
  | tooLong (position position' limit : Nat) :
      Same (.malformed position (.lineTooLong limit)) (.malformed position' (.lineTooLong limit))

theorem Same.symm {e e' : Failure} (h : Same e e') : Same e' e := by
  cases h with
  | refl => exact .refl e
  | tooLong position position' limit => exact .tooLong position' position limit

theorem Same.trans {e e' e'' : Failure} (h : Same e e') (h' : Same e' e'') : Same e e'' := by
  cases h with
  | refl => exact h'
  | tooLong position _ limit =>
    cases h' with
    | refl => exact .tooLong position _ limit
    | tooLong _ position'' _ => exact .tooLong position position'' limit

/-- The octets that were taken for a response before it failed, and the position that the failure
gives. What was there of a literal that is cut off does not count. -/
inductive Located : Bytes → Failure → Prop where
  | closed : Located [] .closed
  | within {taken : Bytes} {why : Malformed} : (∀ size, why ≠ .endInLiteral size) →
      Located taken (.malformed taken.length why)
  | inLiteral {before header payload : Bytes} {size : Nat} : Announced header size →
      payload.length < size →
      Located (before ++ header ++ payload)
        (.malformed (before ++ header).length (.endInLiteral size))

end Failure

/-! ### Lines that are too long -/

/-- Once a line is too long, nothing else is found, whatever comes. -/
theorem consume_of_tooLong (hs : l.line < s.line) (bs : Bytes) : ∃ position rest,
    consume l s bs = .broken (.malformed position (.lineTooLong l.line)) rest := by
  induction bs generalizing s with
  | nil => exact ⟨s.position, [], by simp [consume, State.tooLong, hs, State.failure]⟩
  | cons b bs ih =>
    rw [consume]
    generalize step l s.mode b = move
    cases move with
    | run mode =>
      have longer : l.line < (s.advance mode).line := Nat.lt_succ_of_lt hs
      simpa [Move.endsRun, Move.isMeasured] using ih longer
    | _ => exact ⟨s.position, b :: bs, by simp [Move.endsRun, State.tooLong, hs, State.failure]⟩

theorem not_tooLong_of_more (h : consume l s bs = .more s') : ¬ l.line < s'.line := by
  intro long
  obtain ⟨position, rest, broken⟩ := consume_of_tooLong long []
  have whole : consume l s (bs ++ []) = consume l s' [] := consume_more h
  rw [List.append_nil, h, broken] at whole
  cases whole

/-- A failure stands, whatever octets come later. -/
theorem consume_broken (later : Bytes) (h : consume l s bs = .broken e rest) :
    ∃ e' rest', consume l s (bs ++ later) = .broken e' rest' ∧ e.Same e' := by
  induction bs generalizing s with
  | nil =>
    rw [consume] at h
    split at h
    next long =>
      cases h
      obtain ⟨position, rest', broken⟩ := consume_of_tooLong (of_decide_eq_true long) later
      exact ⟨_, rest', broken, .tooLong _ _ _⟩
    next => cases h
  | cons b bs ih =>
    rw [consume] at h
    rw [List.cons_append, consume]
    generalize step l s.mode b = move at h ⊢
    split at h
    next hr =>
      cases h
      rw [if_pos hr]
      exact ⟨_, _, rfl, .refl _⟩
    next hr =>
      rw [if_neg hr]
      split at h
      next hm =>
        cases h
        rw [if_pos hm]
        exact ⟨_, _, rfl, .refl _⟩
      next hm =>
        rw [if_neg hm]
        cases move with
        | finish => cases h
        | refuse | reject =>
          cases h
          exact ⟨_, _, rfl, .refl _⟩
        | _ => exact ih h

/-! ### Pieces -/

open Wire (Arrived Inbox)

/-- What octets come to if the stream ends behind them: a response and the octets behind it, or a
failure. -/
def outcome (l : Limits) (s : State) (bs : Bytes) : Except Failure (Response × Bytes) :=
  match consume l s bs with
  | .done r rest => .ok (r, rest)
  | .broken e _ => .error e
  | .more s' => .error (atEnd s')

inductive Reflects (now : Duration) : Except Failure (Response × Bytes) →
    Arrived State Failure Response × Inbox × Duration → Prop where
  | item (r : Response) (left : Bytes) (later : List Bytes) :
      Reflects now (.ok (r, left ++ later.flatten)) (.item r, .ofPieces left later, now)
  | broken {e e' : Failure} (left : Bytes) (later : List Bytes) : e.Same e' →
      Reflects now (.error e) (.broken e', .ofPieces left later, now)

theorem reflects_done {p left : Bytes} (now : Duration) (later : List Bytes)
    (hc : consume l s p = .done r left) : Reflects now (outcome l s (p ++ later.flatten))
      (.item r, .ofPieces left later, now) := by
  have whole : consume l s (p ++ later.flatten) = .done r (left ++ later.flatten) :=
    seamless.done later.flatten hc
  rw [outcome, whole]
  exact .item r left later

theorem reflects_broken {p left : Bytes} (now : Duration) (later : List Bytes)
    (hc : consume l s p = .broken e left) : Reflects now (outcome l s (p ++ later.flatten))
      (.broken e, .ofPieces left later, now) := by
  obtain ⟨e', rest, whole, same⟩ := consume_broken later.flatten hc
  rw [outcome, whole]
  exact .broken left later same.symm

theorem await_reflects (deadline now : Duration) (pieces : List Bytes) (hs : ¬ l.line < s.line) :
    Reflects now (outcome l s pieces.flatten)
      (Inbox.await (framing l) deadline now s (pieces.map .data)) := by
  induction pieces generalizing s with
  | nil =>
    have fits : ¬ s.tooLong l = true := fun long => hs (of_decide_eq_true long)
    rw [List.flatten_nil, outcome, consume, if_neg fits]
    exact .broken [] [] (.refl _)
  | cons p ps ih =>
    rw [List.flatten_cons, List.map_cons, Inbox.await]
    by_cases hp : p.isEmpty
    · rw [List.isEmpty_iff.mp hp]
      exact ih hs
    · rw [if_neg hp]
      cases hc : (framing l).consume s p with
      | more s' =>
        rw [outcome, consume_more hc]
        exact ih (not_tooLong_of_more hc)
      | done r left => exact reflects_done now ps hc
      | broken e left => exact reflects_broken now ps hc

/-- A read of pieces finds what the octets come to that the pieces make up. -/
theorem pull_reflects (l : Limits) (deadline now : Duration) (buffer : Bytes)
    (pieces : List Bytes) : Reflects now (outcome l initial (buffer ++ pieces.flatten))
      ((Inbox.ofPieces buffer pieces).pull (framing l) deadline now) := by
  unfold Inbox.pull Inbox.ofPieces
  by_cases hb : buffer.isEmpty
  · rw [if_pos hb, List.isEmpty_iff.mp hb]
    exact await_reflects deadline now pieces (Nat.not_lt_zero l.line)
  · rw [if_neg hb]
    dsimp only
    cases hc : (framing l).consume (framing l).initial buffer with
    | more s =>
      have rest := await_reflects deadline now pieces (not_tooLong_of_more hc)
      rwa [outcome, ← consume_more hc] at rest
    | done r left => exact reflects_done now pieces hc
    | broken e left => exact reflects_broken now pieces hc

/-! ### Positions -/

/-- What the octets taken last are, in the modes that read the announcement of a literal. At the
start there are none. -/
def Trails : Mode → Bytes → Prop
  | .start, taken => taken = []
  | .size _ digits, taken => (∀ b ∈ digits, Octet.isDigit b = true) ∧
      ∃ before, taken = before ++ octet '\x7b' :: digits.reverse
  | .brace _ digits, taken => (∀ b ∈ digits, Octet.isDigit b = true) ∧
      ∃ before, taken = before ++ octet '\x7b' :: (digits.reverse ++ [octet '+'])
  | .sizeEnd _ size, taken => ∃ before front, taken = before ++ front ∧
      Announced (front ++ Bytes.crlf) size
  | .sizeLf _ size, taken => ∃ before front, taken = before ++ front ++ [Bytes.cr] ∧
      Announced (front ++ Bytes.crlf) size
  | _, _ => True

/-- How the position goes with the octets taken. In a payload it stays where the payload begins. -/
def State.Counts (s : State) (taken : Bytes) : Prop :=
  match s.mode with
  | .payload _ size missing stored => ∃ before header, taken = before ++ header ++ stored.reverse ∧
      Announced header size ∧ s.position = (before ++ header).length ∧
      stored.length + missing = size ∧ 0 < missing ∧ s.line = 0
  | m => s.position = taken.length ∧ Trails m taken

theorem trails_lineEnd {m' : Mode} (h : Trails m (taken ++ [Bytes.cr]))
    (hn : (lineEnd b m).next? = some m') : Trails m' (taken ++ [b]) := by
  unfold lineEnd at hn
  split_ifs at hn with hb
  · cases hn
    rwa [hb]
  · cases hn
  · cases hn

/-- The closing brace of an announcement, after its digits and perhaps a plus sign. -/
theorem trails_brace {n : Nest} {digits plus before : Bytes} {m' : Mode}
    (hp : plus = [] ∨ plus = [octet '+']) (hd : ∀ b ∈ digits, Octet.isDigit b = true)
    (hn : (braceStep n digits b).next? = some m') :
    Trails m' (before ++ octet '\x7b' :: (digits.reverse ++ plus) ++ [b]) := by
  unfold braceStep at hn
  split_ifs at hn with hb
  · split at hn
    next size hs =>
      cases hn
      obtain ⟨ne, value, below⟩ := sizeOf?_eq_some hs
      refine ⟨before, octet '\x7b' :: digits.reverse ++ plus ++ [octet '\x7d'], by simp [hb], ?_⟩
      have announced : Announced _ size :=
        .mk (List.reverse_ne_nil_iff.mpr ne) (by simpa using hd) hp value below
      simpa using announced
    · cases hn
  · cases hn

/-- Each octet of an announcement is where it has to be for the next. -/
theorem trails_next {m' : Mode} (h : Trails m taken) (hn : (step l m b).next? = some m') :
    Trails m' (taken ++ [b]) := by
  cases m with
  | size n digits =>
    obtain ⟨hd, before, rfl⟩ := h
    simp only [step, sizeStep] at hn
    split_ifs at hn with hb hp
    · cases hn
      exact ⟨List.forall_mem_cons.mpr ⟨hb, hd⟩, before, by simp⟩
    · cases hn
      exact ⟨hd, before, by simp [hp]⟩
    · have closed := @trails_brace b n digits [] before m' (.inl rfl) hd hn
      rwa [List.append_nil] at closed
  | brace n digits =>
    obtain ⟨hd, before, rfl⟩ := h
    exact trails_brace (.inr rfl) hd hn
  | sizeEnd n size =>
    obtain ⟨before, front, rfl, announced⟩ := h
    have cr : Trails (.sizeLf n size) (before ++ front ++ [Bytes.cr]) :=
      ⟨before, front, rfl, announced⟩
    exact trails_lineEnd cr hn
  | _ =>
    simp only [step, expect, lineEnd, lineFeed, textStep, codeStep, gapStep, codeGapStep, closeStep,
      openStep, tokensEndStep, tokensStep, quotedStep, escapeStep, literalMode, payloadStep,
      tagStep] at hn
    grind [Trails, Move.next?]

def Move.Plain : Move → Prop
  | .run m | .begin m | .take m => ∀ n size missing stored, m ≠ .payload n size missing stored
  | .finish _ => True
  | .refuse why | .reject why => ∀ size, why ≠ .endInLiteral size
  | .newLine _ | .store _ | .stored .. => False

section Plain

variable {m' : Mode} {head : Head} {n : Nest} {word digits : Bytes} {size : Nat}

theorem plain_expect {wanted : UInt8} (h : (Move.take m').Plain) : (expect wanted b m').Plain := by
  unfold expect
  split_ifs
  · exact h
  · simp [Move.Plain]

theorem plain_lineEnd (h : (Move.take m').Plain) : (lineEnd b m').Plain := by
  unfold lineEnd
  split_ifs
  · exact h
  · simp [Move.Plain]
  · simp [Move.Plain]

theorem plain_lineFeed {next : Move} (h : next.Plain) : (lineFeed b next).Plain := by
  unfold lineFeed
  split_ifs
  · exact h
  · simp [Move.Plain]

theorem plain_text {goal : Goal} : (textStep goal word b).Plain := by
  unfold textStep
  split_ifs
  · exact plain_lineEnd (by simp [Move.Plain])
  · simp [Move.Plain]
  · simp [Move.Plain]

theorem plain_gap : (gapStep head b).Plain ∧ (codeStep head b).Plain := by
  have code : (codeStep head b).Plain := by
    unfold codeStep
    split_ifs
    · simp [Move.Plain]
    · exact plain_text
  refine ⟨?_, code⟩
  unfold gapStep
  split_ifs
  · simp [Move.Plain]
  · exact code

theorem plain_tokens : (tokensStep n b).Plain := by
  have ends : (tokensEndStep n b).Plain := by
    unfold tokensEndStep
    split
    · simp [Move.Plain]
    · simp [Move.Plain]
    · exact plain_lineEnd (by simp [Move.Plain])
  have closes : (closeStep n b).Plain := by
    unfold closeStep
    split
    · split_ifs <;> simp [Move.Plain]
    · split_ifs <;> simp [Move.Plain]
    · simp [Move.Plain]
  unfold tokensStep
  split_ifs <;> first | assumption | simp [Move.Plain, openStep]

theorem plain_brace : (braceStep n digits b).Plain := by
  unfold braceStep
  split_ifs
  · split <;> simp [Move.Plain]
  · simp [Move.Plain]

theorem plain_tag : (tagStep word b).Plain := by
  unfold tagStep
  split_ifs
  · simp [Move.Plain]
  · simp [Move.Plain]
  · exact plain_expect (by simp [Move.Plain])

theorem verdictOf_ne_endInLiteral {tag : Tag} {why : Malformed}
    (h : verdictOf tag word = .error why) (size : Nat) : why ≠ .endInLiteral size := by
  unfold verdictOf at h
  split_ifs at h
  · cases h
    simp
  · split at h
    · cases h
    · cases h
      simp

/-- Only the end of an announcement leads into a payload. -/
theorem step_plain (l : Limits) (b : UInt8) (hs : ∀ n size, m ≠ .sizeLf n size)
    (hp : ∀ n size missing stored, m ≠ .payload n size missing stored) : (step l m b).Plain := by
  cases m with
  | start =>
    simp only [step]
    split_ifs
    · simp [Move.Plain]
    · simp [Move.Plain]
    · exact plain_tag
  | plus =>
    simp only [step]
    split_ifs
    · simp [Move.Plain]
    · exact plain_text
  | star => exact plain_expect (by simp [Move.Plain])
  | tag word => exact plain_tag
  | verdict tag word =>
    simp only [step]
    split_ifs
    · simp [Move.Plain]
    · split
      · exact plain_gap.1
      next hv => exact verdictOf_ne_endInLiteral hv
  | untagged =>
    simp only [step]
    split_ifs
    · simp [Move.Plain]
    · exact plain_tokens
  | keyword word =>
    simp only [step]
    split_ifs
    · simp [Move.Plain]
    · split
      · exact plain_gap.1
      · exact plain_tokens
  | gap head => exact plain_gap.1
  | code head => exact plain_gap.2
  | codeGap head code =>
    simp only [step, codeGapStep]
    split_ifs
    · simp [Move.Plain]
    · exact plain_text
  | text goal word => exact plain_text
  | textEnd goal word => exact plain_lineFeed trivial
  | tokens n => exact plain_tokens
  | tokensEnd n => exact plain_lineFeed trivial
  | atom n word =>
    simp only [step]
    split_ifs
    · simp [Move.Plain]
    · exact plain_tokens
  | quoted n word =>
    simp only [step, quotedStep]
    split_ifs
    · split <;> simp [Move.Plain]
    · simp [Move.Plain]
    · simp [Move.Plain]
    · simp [Move.Plain]
  | escape n word =>
    simp only [step, escapeStep]
    split_ifs <;> simp [Move.Plain]
  | size n digits =>
    simp only [step, sizeStep]
    split_ifs
    · simp [Move.Plain]
    · simp [Move.Plain]
    · exact plain_brace
  | brace n digits => exact plain_brace
  | sizeEnd n size => exact plain_lineEnd (by simp [Move.Plain])
  | sizeLf n size => exact absurd rfl (hs n size)
  | payload n size missing stored => exact absurd rfl (hp n size missing stored)

end Plain

theorem State.counts_iff (h : ∀ n size missing stored, s.mode ≠ .payload n size missing stored) :
    s.Counts taken ↔ s.position = taken.length ∧ Trails s.mode taken := by
  unfold State.Counts
  split
  next n size missing stored hm => exact absurd hm (h n size missing stored)
  · rfl

def Move.Counted (s : State) (taken : Bytes) (b : UInt8) : Move → Prop
  | .run m | .begin m | .take m => (s.advance m).Counts (taken ++ [b])
  | .newLine m => State.Counts ⟨m, s.position + 1, 0⟩ (taken ++ [b])
  | .finish _ => True
  | .store m => State.Counts { s with mode := m } (taken ++ [b])
  | .stored size m => State.Counts ⟨m, s.position + size, 0⟩ (taken ++ [b])
  | .refuse why => (s.failure why).Located taken
  | .reject why => ((s.advance s.mode).failure why).Located (taken ++ [b])

theorem counted_reject {why : Malformed} (h : s.position = taken.length)
    (hw : ∀ size, why ≠ .endInLiteral size) : (Move.reject why).Counted s taken b := by
  have longer : s.position + 1 = (taken ++ [b]).length := by simp [h]
  rw [Move.Counted, State.failure, State.advance, longer]
  exact .within hw

theorem counted_of_plain {move : Move} (hp : move.Plain) (h : s.position = taken.length)
    (ht : ∀ m', move.next? = some m' → Trails m' (taken ++ [b])) : move.Counted s taken b := by
  cases move with
  | run m' | begin m' | take m' =>
    have same : (s.advance m').Counts (taken ++ [b]) ↔
        s.position + 1 = (taken ++ [b]).length ∧ Trails m' (taken ++ [b]) := State.counts_iff hp
    exact same.mpr ⟨by simp [h], ht m' rfl⟩
  | finish => trivial
  | refuse why =>
    rw [Move.Counted, State.failure, h]
    exact .within hp
  | reject why => exact counted_reject h hp
  | newLine | store | stored => exact hp.elim

/-- The payload begins behind the line end of its announcement. -/
theorem counted_sizeLf {n : Nest} {size : Nat} (hm : s.mode = .sizeLf n size)
    (h : s.Counts taken) : (step l s.mode b).Counted s taken b := by
  rw [State.Counts, hm] at h
  obtain ⟨position, before, front, rfl, announced⟩ := h
  rw [hm, step, lineFeed]
  by_cases hb : b = Bytes.lf
  · rw [if_pos hb, hb, Move.Counted]
    have longer : s.position + 1 = (before ++ (front ++ Bytes.crlf)).length := by
      simp [position, Bytes.crlf, Nat.add_assoc]
    by_cases hs : size = 0
    · rw [if_pos hs]
      exact ⟨by simpa [Bytes.crlf] using longer, trivial⟩
    · rw [if_neg hs]
      exact ⟨before, front ++ Bytes.crlf, by simp [Bytes.crlf], announced, longer,
        Nat.zero_add size, Nat.pos_of_ne_zero hs, rfl⟩
  · rw [if_neg hb]
    exact counted_reject position (by simp)

/-- The octets of a literal count when the last of them has come. -/
theorem counted_payload {n : Nest} {size missing : Nat} {stored : Bytes}
    (hm : s.mode = .payload n size missing stored) (h : s.Counts taken) :
    (step l s.mode b).Counted s taken b := by
  rw [State.Counts, hm] at h
  obtain ⟨before, header, rfl, announced, position, complete, positive, line⟩ := h
  rw [hm, step, payloadStep]
  by_cases last : missing ≤ 1
  · rw [if_pos last]
    refine ⟨?_, trivial⟩
    simp [position]
    omega
  · rw [if_neg last]
    refine ⟨before, header, by simp, announced, position, ?_, ?_, line⟩
    · rw [List.length_cons]
      omega
    · omega

theorem counted_step (l : Limits) (b : UInt8) (h : s.Counts taken) :
    (step l s.mode b).Counted s taken b := by
  by_cases hs : ∃ n size, s.mode = .sizeLf n size
  · obtain ⟨n, size, hm⟩ := hs
    exact counted_sizeLf hm h
  · by_cases hp : ∃ n size missing stored, s.mode = .payload n size missing stored
    · obtain ⟨n, size, missing, stored, hm⟩ := hp
      exact counted_payload hm h
    · simp only [not_exists] at hs hp
      obtain ⟨position, trails⟩ := (State.counts_iff hp).mp h
      exact counted_of_plain (step_plain l b hs hp) position fun _ hn => trails_next trails hn

/-- A line that is too long is found outside of payloads, where all octets count. -/
theorem located_of_tooLong (h : s.Counts taken) (long : l.line < s.line) :
    (s.failure (.lineTooLong l.line)).Located taken := by
  have outside : ∀ n size missing stored, s.mode ≠ .payload n size missing stored := by
    intro n size missing stored hm
    rw [State.Counts, hm] at h
    obtain ⟨_, _, _, _, _, _, _, line⟩ := h
    exact Nat.not_lt_zero _ (line ▸ long)
  rw [State.failure, ((State.counts_iff outside).mp h).1]
  exact .within (by simp)

theorem located_of_measured (h : s.Counts taken) (measured : (step l s.mode b).isMeasured) :
    ((s.advance s.mode).failure (.lineTooLong l.line)).Located (taken ++ [b]) := by
  have outside : ∀ n size missing stored, s.mode ≠ .payload n size missing stored := by
    intro n size missing stored hm
    rw [hm, step, payloadStep] at measured
    split_ifs at measured <;> cases measured
  exact counted_reject ((State.counts_iff outside).mp h).1 (by simp)

/-- Octets that are read leave the position right, and so does a failure among them. -/
theorem counts_consume (h : s.Counts taken) :
    (∀ s', consume l s bs = .more s' → s'.Counts (taken ++ bs)) ∧
      ∀ e left, consume l s bs = .broken e left →
        ∃ used, bs = used ++ left ∧ e.Located (taken ++ used) := by
  induction bs generalizing s taken with
  | nil =>
    rw [consume]
    split_ifs with long
    · refine ⟨by simp, ?_⟩
      rintro e left ⟨⟩
      exact ⟨[], rfl, by simpa using located_of_tooLong h (of_decide_eq_true long)⟩
    · refine ⟨?_, by simp⟩
      rintro s' ⟨⟩
      simpa using h
  | cons b bs ih =>
    have onward {s' : State} (h' : s'.Counts (taken ++ [b])) :
        (∀ s'', consume l s' bs = .more s'' → s''.Counts (taken ++ b :: bs)) ∧
          ∀ e left, consume l s' bs = .broken e left →
            ∃ used, b :: bs = used ++ left ∧ e.Located (taken ++ used) := by
      obtain ⟨more, broken⟩ := ih h'
      refine ⟨fun s'' hc => by simpa using more s'' hc, fun e left hc => ?_⟩
      obtain ⟨used, rfl, located⟩ := broken e left hc
      exact ⟨b :: used, rfl, by simpa using located⟩
    have counted := counted_step l b h
    have long := located_of_measured (l := l) (b := b) h
    rw [consume]
    generalize step l s.mode b = move at counted long ⊢
    split_ifs with hr hm
    · refine ⟨by simp, ?_⟩
      rintro e left ⟨⟩
      rw [Bool.and_eq_true] at hr
      exact ⟨[], rfl, by simpa using located_of_tooLong h (of_decide_eq_true hr.2)⟩
    · refine ⟨by simp, ?_⟩
      rintro e left ⟨⟩
      rw [Bool.and_eq_true] at hm
      exact ⟨[b], rfl, long hm.1⟩
    · cases move with
      | finish => simp
      | refuse why =>
        refine ⟨by simp, ?_⟩
        rintro e left ⟨⟩
        rw [Move.Counted, ← List.append_nil taken] at counted
        exact ⟨[], rfl, counted⟩
      | reject why =>
        refine ⟨by simp, ?_⟩
        rintro e left ⟨⟩
        exact ⟨[b], rfl, counted⟩
      | _ => exact onward counted

theorem ended_ne_endInLiteral (hp : ∀ n size missing stored, m ≠ .payload n size missing stored)
    (size : Nat) : ended m ≠ .endInLiteral size := by
  unfold ended
  split
  · simp
  · simp
  · simp
  · split_ifs <;> simp
  · split
    · simp
    next hv => exact verdictOf_ne_endInLiteral hv size
  next n size' missing stored => exact absurd rfl (hp n size' missing stored)
  · simp

/-- The end of the stream is where the octets end, or within a literal. -/
theorem located_atEnd (h : s.Counts taken) : (atEnd s).Located taken := by
  by_cases hp : ∃ n size missing stored, s.mode = .payload n size missing stored
  · obtain ⟨n, size, missing, stored, hm⟩ := hp
    rw [State.Counts, hm] at h
    obtain ⟨before, header, rfl, announced, position, complete, positive, -⟩ := h
    simp only [atEnd, State.isPartial, hm, if_true, ended, State.failure, position]
    refine .inLiteral announced ?_
    rw [List.length_reverse]
    omega
  · simp only [not_exists] at hp
    obtain ⟨position, trails⟩ := (State.counts_iff hp).mp h
    by_cases hs : s.mode = .start
    · rw [hs] at trails
      rw [atEnd, State.isPartial, hs, show taken = [] from trails]
      exact .closed
    · have begun : s.isPartial = true := by
        unfold State.isPartial
        split
        next hm => exact absurd hm hs
        · rfl
      rw [atEnd, if_pos begun, State.failure, position]
      exact .within (ended_ne_endInLiteral hp)

variable {i i' : Inbox} {deadline now now' : Duration}

theorem located_of_await {feed : List Wire.Arrival} (hs : s.Counts taken)
    (h : Inbox.await (framing l) deadline now s feed = (.broken e, i', now')) :
    ∃ used, feed.flatMap Wire.Arrival.octets = used ++ i'.content ∧ e.Located (taken ++ used) := by
  fun_induction Inbox.await (framing l) deadline now s feed generalizing taken with
  | case1 now s =>
    cases h
    refine ⟨[], rfl, ?_⟩
    rw [List.append_nil]
    exact located_atEnd hs
  | case2 now s bs rest hb ih =>
    obtain rfl := List.isEmpty_iff.mp hb
    exact ih hs h
  | case3 now s bs rest hb s' hc ih =>
    obtain ⟨used, later, located⟩ := ih ((counts_consume hs).1 s' hc) h
    refine ⟨bs ++ used, ?_, by simpa using located⟩
    rw [List.flatMap_cons, later, List.append_assoc]
    rfl
  | case5 now s bs rest hb e' left hc =>
    cases h
    obtain ⟨used, rfl, located⟩ := (counts_consume hs).2 _ left hc
    exact ⟨used, by simp [Inbox.content, Wire.Arrival.octets], located⟩
  | case6 _ _ _ _ _ ih | case8 _ _ _ _ _ ih | case9 _ _ _ _ _ _ ih => exact ih hs h
  | case4 | case7 | case10 | case11 | case12 => simp at h

/-- A failure gives the number of octets taken, up to the payload of a literal that is cut off. -/
theorem located_of_pull (h : i.pull (framing l) deadline now = (.broken e, i', now')) :
    ∃ taken, i.content = taken ++ i'.content ∧ e.Located taken := by
  have start : initial.Counts [] := ⟨rfl, rfl⟩
  unfold Inbox.pull at h
  unfold Inbox.content
  split at h
  next hb =>
    rw [List.isEmpty_iff.mp hb]
    exact located_of_await start h
  · split at h
    next s hc =>
      obtain ⟨used, later, located⟩ := located_of_await ((counts_consume start).1 s hc) h
      exact ⟨i.buffer ++ used, by rw [later, List.append_assoc]; rfl, located⟩
    · simp at h
    next e' left hc =>
      cases h
      obtain ⟨used, taken, located⟩ := (counts_consume start).2 e left hc
      exact ⟨used, by rw [taken, List.append_assoc], located⟩

/-! ### Two readers -/

def Breaks (l : Limits) (i : Inbox) (e : Failure) : Prop :=
  ∃ taken i', (∀ deadline now, i.pull (framing l) deadline now = (.broken e, i', now)) ∧
    i.content = taken ++ i'.content ∧ e.Located taken

/-- Two readers that find the same from one read to the next: responses with the same octets left
unread, and in the end the same failure. -/
inductive Alike (l : Limits) : Inbox → Inbox → Prop where
  | item {i i' j j' : Inbox} (r : Response) :
      (∀ deadline now, i.pull (framing l) deadline now = (.item r, i', now)) →
      (∀ deadline now, j.pull (framing l) deadline now = (.item r, j', now)) →
      i'.content = j'.content → Alike l i' j' → Alike l i j
  | broken {i j : Inbox} {e e' : Failure} : Breaks l i e → Breaks l j e' → e.Same e' → Alike l i j

/-- What a reader of pieces finds is what their octets come to. -/
theorem finds_outcome (l : Limits) (buffer : Bytes) (pieces : List Bytes) :
    (∃ r left later, outcome l initial (buffer ++ pieces.flatten) = .ok (r, left ++ later.flatten) ∧
      ∀ deadline now, (Inbox.ofPieces buffer pieces).pull (framing l) deadline now =
        (.item r, .ofPieces left later, now)) ∨
    ∃ e e', outcome l initial (buffer ++ pieces.flatten) = .error e ∧
      Breaks l (.ofPieces buffer pieces) e' ∧ e.Same e' := by
  obtain ⟨arrived, left, later, hp⟩ := Inbox.pull_ofPieces (framing l) buffer pieces
  have hr := pull_reflects l 0 0 buffer pieces
  rw [hp] at hr
  generalize outcome l initial (buffer ++ pieces.flatten) = found at hr ⊢
  generalize hj : Inbox.ofPieces left later = j at hr hp
  cases hr with
  | item r left later => exact .inl ⟨r, left, later, rfl, hp⟩
  | broken left later same =>
    obtain ⟨taken, content, located⟩ := located_of_pull (hp 0 0)
    exact .inr ⟨_, _, rfl, ⟨taken, _, hp, content, located⟩, same⟩

/-- Two readers of the same octets find the same, however the octets are cut for each of them. -/
theorem alike_of_cuts (l : Limits) (buffer buffer' : Bytes) (pieces pieces' : List Bytes)
    (h : buffer ++ pieces.flatten = buffer' ++ pieces'.flatten) :
    Alike l (.ofPieces buffer pieces) (.ofPieces buffer' pieces') := by
  induction hn : (buffer ++ pieces.flatten).length using Nat.strongRecOn
    generalizing buffer buffer' pieces pieces' with
  | _ n ih =>
  rcases finds_outcome l buffer pieces with ⟨r, left, later, found, hp⟩ | ⟨e, last, found, hb, he⟩
  · rcases finds_outcome l buffer' pieces' with
      ⟨r', left', later', found', hp'⟩ | ⟨e', last', found', hb', he'⟩
    · rw [← h, found, Except.ok.injEq, Prod.mk.injEq] at found'
      obtain ⟨rfl, rest⟩ := found'
      have shorter := length_lt_of_consume (Inbox.consume_of_pull seamless (hp 0 0))
      refine .item r hp hp' ?_ (ih _ ?_ left left' later later' rest rfl)
      · rw [Inbox.content_ofPieces, Inbox.content_ofPieces, rest]
      · rwa [Inbox.content_ofPieces, Inbox.content_ofPieces, hn] at shorter
    · rw [← h, found] at found'
      cases found'
  · rcases finds_outcome l buffer' pieces' with
      ⟨r', left', later', found', hp'⟩ | ⟨e', last', found', hb', he'⟩
    · rw [← h, found] at found'
      cases found'
    · rw [← h, found, Except.error.injEq] at found'
      subst found'
      exact .broken hb hb' (he.symm.trans he')

/-- A literal that is cut off, read at once and read with the line ends in two. -/
theorem alike_of_cuts_literal :
    Alike ⟨80, 80⟩ (.ofPieces (Bytes.ofText "* OK hi\r\n* X \x7b5\x7d\r\nab") [])
      (.ofPieces [] [Bytes.ofText "* OK hi\r", Bytes.ofText "\n* X \x7b5\x7d\r",
        Bytes.ofText "\nab"]) :=
  alike_of_cuts ⟨80, 80⟩ _ _ _ _ (by decide +kernel)

end MailClient.Imap.Parse
