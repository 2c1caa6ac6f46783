import MailClient.Proofs.Smtp.ReplyFormat
import MailClient.Smtp.Client

/-! A conversation with a mail server by turns: the client says something, and takes the next reply
for the answer to it. -/
namespace MailClient.Smtp

inductive Utterance where
  | command (c : Command)
  /-- A line within an authentication. -/
  | line (text : String)
  | message (content : Bytes)

namespace Utterance

def octets : Utterance → Bytes
  | .command c => c.encode
  | .line text => Bytes.line text
  | .message content => Message.encode content

def IsLine : Utterance → Prop
  | .command c => Text.IsLine (c.verb ++ c.arguments)
  | .line text => Text.IsLine text
  | .message _ => True

end Utterance

structure Turn where
  said : Utterance
  /-- What is taken for the answer to it. -/
  answer : Except Error Reply

def Turn.Answered (t : Turn) : Prop := ∃ reply, t.answer = .ok reply

structure WrittenReply where
  octets : Bytes
  reply : Reply
  written : Reply.Written octets reply

namespace WrittenReply

instance (text : String) : Decidable (Reply.IsText text) :=
  decidable_of_iff ('\n' ∉ text.toList ∧ text.toList.getLast? ≠ some '\r' ∧
      (Bytes.ofText text).length + 6 ≤ Reading.lineLimit)
    ⟨fun ⟨noLineFeed, noReturn, fits⟩ => ⟨noLineFeed, noReturn, fits⟩,
      fun ⟨noLineFeed, noReturn, fits⟩ => ⟨noLineFeed, noReturn, fits⟩⟩

def ofTexts (a b c : Char) (texts : List String)
    (h : (a.isDigit ∧ b.isDigit ∧ c.isDigit) ∧ texts ≠ [] ∧
      texts.length ≤ Reading.lineCountLimit ∧ ∀ text ∈ texts, Reply.IsText text := by decide) :
    WrittenReply where
  octets := Reply.render (String.ofList [a, b, c]) texts
  reply := ⟨Text.digitsValue 0 [a, b, c], texts⟩
  written :=
    have code : Reply.IsCode (String.ofList [a, b, c]) (Text.digitsValue 0 [a, b, c]) :=
      .mk h.1.1 h.1.2.1 h.1.2.2
    .mk code (Reply.lines_render code h.2.1 h.2.2.2) h.2.2.1

end WrittenReply

/-- Turns that keep to a script, and leave the rest of it: each has the next reply for its answer,
and its octets go out. Only the last turn may have none, because the script is over or because the
peer is `refusing` octets. -/
inductive Paired (refusing : Prop) :
    List Turn → List WrittenReply → List WrittenReply → Bytes → Prop where
  | nil (script) : Paired refusing [] script script []
  | answered {said} {w : WrittenReply} {turns script left out} :
      Paired refusing turns script left out →
      Paired refusing (⟨said, .ok w.reply⟩ :: turns) (w :: script) left (said.octets ++ out)
  | unheard {said} : Paired refusing [⟨said, .error (.io .closed)⟩] [] [] said.octets
  | refused {said e part script} : refusing → part <+: said.octets → part ≠ said.octets →
      Paired refusing [⟨said, .error e⟩] script script part

variable {refusing : Prop} {turns later : List Turn} {script middle left : List WrittenReply}
  {out more : Bytes} {s s₁ s₂ : Wire.Stream}

namespace Paired

theorem mono {refusing' : Prop} (h : Paired refusing turns script left out)
    (may : refusing → refusing') : Paired refusing' turns script left out := by
  induction h with
  | nil script => exact .nil script
  | answered _ ih => exact .answered ih
  | unheard => exact .unheard
  | refused does short proper => exact .refused (may does) short proper

theorem append (h : Paired refusing turns script middle out) (answered : ∀ t ∈ turns, t.Answered)
    (h' : Paired refusing later middle left more) :
    Paired refusing (turns ++ later) script left (out ++ more) := by
  induction h with
  | nil => exact h'
  | answered _ ih =>
    rw [List.append_assoc]
    exact .answered (ih (List.forall_mem_cons.mp answered).2 h')
  | unheard | refused =>
    obtain ⟨reply, absurd⟩ := answered _ (List.mem_singleton_self _)
    cases absurd

/-- Where every turn has its answer, one reply has been read for each, and all octets are out. -/
theorem whole (h : Paired refusing turns script left out) (answered : ∀ t ∈ turns, t.Answered) :
    (∃ read, script = read ++ left ∧ turns.map Turn.answer = read.map fun w => .ok w.reply) ∧
      out = turns.flatMap fun t => t.said.octets := by
  induction h with
  | nil => exact ⟨⟨[], rfl, rfl⟩, rfl⟩
  | @answered said w _ _ _ _ _ ih =>
    obtain ⟨⟨read, rfl, answers⟩, rfl⟩ := ih (List.forall_mem_cons.mp answered).2
    exact ⟨⟨w :: read, rfl, by rw [List.map_cons, List.map_cons, answers]⟩, rfl⟩
  | unheard | refused =>
    obtain ⟨reply, absurd⟩ := answered _ (List.mem_singleton_self _)
    cases absurd

end Paired

/-- Nothing is to come on the stream but the octets of the replies, cut anywhere. -/
def Holds (script : List WrittenReply) (s : Wire.Stream) : Prop :=
  ∃ buffer pieces, s.inbox = .ofPieces buffer pieces ∧
    buffer ++ pieces.flatten = script.flatMap WrittenReply.octets

structure Still (s s' : Wire.Stream) : Prop where
  inbox : s'.inbox = s.inbox
  outlet : s'.outlet = s.outlet
  written : s'.written = s.written

theorem Still.trans (h : Still s s₁) (h' : Still s₁ s₂) : Still s s₂ where
  inbox := h'.inbox.trans h.inbox
  outlet := h'.outlet.trans h.outlet
  written := h'.written.trans h.written

/-- The turns take one stream to the other, and the script to the rest of it. A peer that takes all
octets goes on to do so. -/
structure Conversed (turns : List Turn) (script left : List WrittenReply) (s s' : Wire.Stream) :
    Prop where
  paired : ∃ out, Paired (¬ s.outlet.IsOpen) turns script left out ∧ s'.written = s.written ++ out
  outlet : s.outlet.IsOpen → s'.outlet.IsOpen
  holds : Holds left s'

namespace Conversed

theorem still (h : Holds script s) (same : Still s s₁) : Conversed [] script script s s₁ where
  paired := by
    refine ⟨[], .nil script, ?_⟩
    rw [same.written, List.append_nil]
  outlet isOpen := same.outlet ▸ isOpen
  holds := by
    unfold Holds
    rw [same.inbox]
    exact h

theorem append (h : Conversed turns script middle s s₁) (answered : ∀ t ∈ turns, t.Answered)
    (h' : Conversed later middle left s₁ s₂) :
    Conversed (turns ++ later) script left s s₂ := by
  obtain ⟨out, paired, written⟩ := h.paired
  obtain ⟨more, paired', written'⟩ := h'.paired
  have refusing : ¬ s₁.outlet.IsOpen → ¬ s.outlet.IsOpen := mt h.outlet
  refine ⟨⟨out ++ more, paired.append answered (paired'.mono refusing), ?_⟩, ?_, h'.holds⟩
  · rw [written', written, List.append_assoc]
  · exact fun isOpen => h'.outlet (h.outlet isOpen)

theorem append_still (h : Conversed turns script left s s₁) (same : Still s₁ s₂) :
    Conversed turns script left s s₂ := by
  have rest := still h.holds same
  obtain ⟨out, paired, written⟩ := h.paired
  exact ⟨⟨out, paired, same.written.trans written⟩, fun isOpen => rest.outlet (h.outlet isOpen),
    rest.holds⟩

end Conversed

/-! ### One turn -/

variable {w : WrittenReply}

theorem holds_write (h : Holds script s) (bytes : Bytes) (limit : Duration) :
    Holds script (s.write bytes limit).2 := by
  unfold Holds
  rw [Wire.Stream.inbox_write]
  exact h

/-- The next reply of the script is the one that is read. -/
theorem readReply_next (h : Holds (w :: script) s) (limit : Duration) :
    ∃ s', readReply limit s = (.ok w.reply, s') ∧ Holds script s' ∧ s'.outlet = s.outlet ∧
      s'.written = s.written := by
  obtain ⟨buffer, pieces, hi, octets⟩ := h
  obtain ⟨left, later, pulled, rest⟩ :=
    Reply.pull_of_written (s.clock + limit) s.clock w.written octets
  refine ⟨{ s with inbox := .ofPieces left later }, ?_, ⟨left, later, rfl, rest⟩, rfl, rfl⟩
  unfold readReply Wire.Stream.read
  rw [hi, pulled]

theorem ended_initial : Reading.framing.ended Reading.framing.initial = .io .closed := by
  have nothing : Text.Utf8.decode [] = .ok "" := Text.Utf8.decode_ofText ""
  change Reading.ended Reading.initial = _
  unfold Reading.ended
  rw [show Reading.initial.line.reverse = [] from rfl, nothing]

theorem readReply_over (h : Holds [] s) (limit : Duration) :
    ∃ s', readReply limit s = (.error (.io .closed), s') ∧ Holds [] s' ∧ s'.outlet = s.outlet ∧
      s'.written = s.written := by
  obtain ⟨buffer, pieces, hi, octets⟩ := h
  refine ⟨{ s with inbox := .ofPieces [] [] }, ?_, ⟨[], [], rfl, rfl⟩, rfl, rfl⟩
  unfold readReply Wire.Stream.read
  rw [hi, Wire.Inbox.pull_of_empty _ _ _ octets, ended_initial]

/-- What is said has the next reply for its answer, if all of it is accepted. -/
theorem conversed_exchange (h : Holds script s) (said : Utterance) (limit : Duration) :
    ∃ left, Conversed [⟨said, (exchange said.octets limit s).1⟩] script left s
      (exchange said.octets limit s).2 := by
  rw [exchange_eq]
  have holds := holds_write h said.octets limit
  have outlet (isOpen : s.outlet.IsOpen) :=
    Wire.Stream.write_of_isOpen isOpen said.octets limit
  rcases write_cases said.octets limit s with ⟨s₁, hw, ho⟩ | ⟨e, refused, ho⟩
  · rw [ho]
    dsimp only
    rw [hw] at holds outlet
    have written := Wire.Stream.written_of_write hw
    have goesOn (isOpen : s.outlet.IsOpen) : s₁.outlet.IsOpen := (outlet isOpen).2 ▸ isOpen
    cases script with
    | nil =>
      obtain ⟨s', ended, holds', same, unwritten⟩ := readReply_over holds limit
      rw [ended]
      exact ⟨[], ⟨_, .unheard, unwritten.trans written⟩, fun isOpen => same ▸ goesOn isOpen,
        holds'⟩
    | cons w script =>
      obtain ⟨s', read, holds', same, unwritten⟩ := readReply_next holds limit
      rw [read]
      refine ⟨script, ⟨_, .answered (.nil script), ?_⟩, fun isOpen => same ▸ goesOn isOpen, holds'⟩
      rw [List.append_nil]
      exact unwritten.trans written
  · rw [ho]
    have refusing : ¬ s.outlet.IsOpen := fun isOpen => refused (outlet isOpen).1
    obtain ⟨part, short, proper, written⟩ := Wire.Stream.written_of_refused refused
    exact ⟨script, ⟨part, .refused refusing short proper, written⟩,
      fun isOpen => absurd isOpen refusing, holds⟩

theorem conversed_request (h : Holds script s) (c : Command) (limit : Duration) :
    ∃ left, Conversed [⟨.command c, (request c limit s).1⟩] script left s
      (request c limit s).2 := conversed_exchange h (.command c) limit

end MailClient.Smtp
