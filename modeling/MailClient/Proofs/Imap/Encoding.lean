import MailClient.Imap.Command
import MailClient.Proofs.Text.Utf8

/-! What the chunks of a command consist of. Put together they are the words of the command with a
space before each argument, however the literals go out. Apart they end where a literal is
announced, and the next one begins with the literal. -/
namespace MailClient.Imap

namespace Argument

def octets (waits : Bool) : Argument → Bytes
  | .plain text => octet ' ' :: Bytes.ofText text
  | .literal data => octet ' ' :: Command.announcement data.length waits ++ data

def literal? : Argument → Option Bytes
  | .literal data => some data
  | .plain _ => none

end Argument

namespace Command

def literals (c : Command) : List Bytes := c.arguments.filterMap Argument.literal?

namespace Encoding

def chunks (e : Encoding) : List Bytes := e.first :: e.later

def octets (e : Encoding) : Bytes := e.chunks.flatten

end Encoding

variable {waits : Bool} {chunk data : Bytes} {arguments : List Argument} {i : Nat}

theorem announcement_eq (size : Nat) (waits : Bool) :
    announcement size waits = octet '\x7b' :: Bytes.ofText (toString size) ++
      (if waits then [] else [octet '+']) ++ octet '\x7d' :: Bytes.crlf := by
  have hopen : Bytes.ofText "\x7b" = [octet '\x7b'] := rfl
  have hclose : Bytes.ofText "\x7d" = [octet '\x7d'] := rfl
  have hplus : Bytes.ofText "+" = [octet '+'] := rfl
  rw [announcement, Bytes.line, Text.Utf8.ofText_append, Text.Utf8.ofText_append,
    Text.Utf8.ofText_append, hopen, hclose]
  cases waits with
  | true => simp [show Bytes.ofText "" = [] from rfl]
  | false => simp [hplus]

theorem octets_chunksAfter (waits : Bool) (chunk : Bytes) (arguments : List Argument) :
    (chunksAfter waits chunk arguments).octets =
      chunk ++ arguments.flatMap (Argument.octets waits) ++ Bytes.crlf := by
  induction arguments generalizing chunk with
  | nil => simp [chunksAfter, Encoding.octets, Encoding.chunks]
  | cons a rest ih =>
    cases a with
    | plain text =>
      rw [chunksAfter, ih]
      simp [Argument.octets]
    | literal data =>
      rw [chunksAfter]
      dsimp only
      split
      next hw =>
        have rested := ih data
        simp_all [Encoding.octets, Encoding.chunks, Argument.octets]
      · rw [ih]
        simp [Argument.octets]

/-- The octets of a command are the same words, whether its literals wait or not, but for the plus
signs. -/
theorem octets_encode (c : Command) (tag : Tag) (waits : Bool) :
    (c.encode tag waits).octets = Bytes.ofText tag.text ++ octet ' ' :: Bytes.ofText c.name ++
      c.arguments.flatMap (Argument.octets waits) ++ Bytes.crlf :=
  octets_chunksAfter waits _ _

/-! ### Chunks -/

theorem chunks_literal (chunk data : Bytes) (rest : List Argument) :
    (chunksAfter true chunk (.literal data :: rest)).chunks =
      (chunk ++ octet ' ' :: announcement data.length true) ::
        (chunksAfter true data rest).chunks := rfl

theorem prefix_first_chunksAfter (waits : Bool) (chunk : Bytes) (arguments : List Argument) :
    chunk <+: (chunksAfter waits chunk arguments).first := by
  induction arguments generalizing chunk with
  | nil => exact List.prefix_append _ _
  | cons a rest ih =>
    cases a with
    | plain text => exact (List.prefix_append _ _).trans (ih _)
    | literal data =>
      rw [chunksAfter]
      dsimp only
      split
      · exact List.prefix_append _ _
      · exact ((List.prefix_append _ _).trans (List.prefix_append _ _)).trans (ih _)

/-- Each literal that waits ends one chunk with its announcement and begins the next. -/
theorem announced_chunksAfter
    (h : (arguments.filterMap Argument.literal?)[i]? = some data) :
    ∃ announcing following,
      (chunksAfter true chunk arguments).chunks[i]? = some announcing ∧
      (chunksAfter true chunk arguments).chunks[i + 1]? = some following ∧
      announcement data.length true <:+ announcing ∧ data <+: following := by
  induction arguments generalizing chunk i with
  | nil => simp at h
  | cons a rest ih =>
    cases a with
    | plain text => exact ih h
    | literal data' =>
      rw [List.filterMap_cons_some (show Argument.literal? _ = some data' from rfl)] at h
      rw [chunks_literal]
      cases i with
      | zero =>
        cases h
        exact ⟨_, _, rfl, rfl, ⟨chunk ++ [octet ' '], by simp⟩, prefix_first_chunksAfter true _ _⟩
      | succ i => exact ih h

theorem length_chunks_chunksAfter (chunk : Bytes) (arguments : List Argument) :
    (chunksAfter true chunk arguments).chunks.length =
      (arguments.filterMap Argument.literal?).length + 1 := by
  induction arguments generalizing chunk with
  | nil => rfl
  | cons a rest ih =>
    cases a with
    | plain text => exact ih _
    | literal data =>
      rw [chunks_literal, List.length_cons, ih]
      rfl

theorem later_chunksAfter_plain (h : ∀ a ∈ arguments, a.isLiteral = false) :
    (chunksAfter waits chunk arguments).later = [] := by
  induction arguments generalizing chunk with
  | nil => rfl
  | cons a rest ih =>
    obtain ⟨ha, hrest⟩ := List.forall_mem_cons.mp h
    cases a with
    | plain text => exact ih hrest
    | literal data => cases ha

/-- A command without literals is all one chunk. -/
theorem later_encode_plain {c : Command} {tag : Tag}
    (h : ∀ a ∈ c.arguments, a.isLiteral = false) : (c.encode tag waits).later = [] :=
  later_chunksAfter_plain h

/-- So is a command whose literals do not wait. -/
theorem later_chunksAfter_false (chunk : Bytes) (arguments : List Argument) :
    (chunksAfter false chunk arguments).later = [] := by
  induction arguments generalizing chunk with
  | nil => rfl
  | cons a rest ih =>
    cases a with
    | plain text => exact ih _
    | literal data => exact ih _

/-- Each later chunk has octets, if only those of the line end. -/
theorem length_first_lt (h : (chunksAfter true chunk arguments).later ≠ []) :
    (chunksAfter true chunk arguments).first.length <
      (chunksAfter true chunk arguments).octets.length := by
  induction arguments generalizing chunk with
  | nil => exact (h rfl).elim
  | cons a rest ih =>
    cases a with
    | plain text => exact ih h
    | literal data =>
      have rested := octets_chunksAfter true data rest
      rw [Encoding.octets, chunks_literal, List.flatten_cons, ← Encoding.octets, rested]
      have first : (chunksAfter true chunk (.literal data :: rest)).first =
          chunk ++ octet ' ' :: announcement data.length true := rfl
      rw [first]
      simp only [List.length_append, List.length_cons, Bytes.crlf]
      omega

theorem length_octets_le (a : Argument) :
    (a.octets true).length ≤ (a.octets false).length := by
  cases a with
  | plain text => exact Nat.le_refl _
  | literal data =>
    simp only [Argument.octets, announcement_eq]
    simp

theorem length_flatMap_octets_le (arguments : List Argument) :
    (arguments.flatMap (Argument.octets true)).length ≤
      (arguments.flatMap (Argument.octets false)).length := by
  induction arguments with
  | nil => simp
  | cons a rest ih =>
    have first := length_octets_le a
    simp only [List.flatMap_cons, List.length_append]
    omega

/-- What a command with waiting literals begins with is a whole command only if it has none. So the
octets tell in which way a command was sent. -/
theorem later_eq_nil_of_first_eq (c : Command) (tag : Tag)
    (h : (c.encode tag false).first = (c.encode tag true).first) :
    (c.encode tag true).later = [] := by
  refine Decidable.of_not_not fun hn => ?_
  have shorter : (c.encode tag true).first.length < (c.encode tag true).octets.length :=
    length_first_lt hn
  have whole : (c.encode tag false).octets = (c.encode tag false).first := by
    have hl : (c.encode tag false).later = [] := later_chunksAfter_false _ _
    simp [Encoding.octets, Encoding.chunks, hl]
  have longer := length_flatMap_octets_le c.arguments
  have sizes := congrArg List.length whole
  rw [octets_encode] at sizes shorter
  rw [h] at sizes
  simp only [List.length_append] at sizes shorter
  omega

theorem length_literals (c : Command) : c.literals.length = c.literalCount := by
  unfold literals literalCount
  rw [List.length_filterMap_eq_countP]
  refine List.countP_congr fun a _ => ?_
  cases a with
  | plain text => exact Iff.rfl
  | literal data => exact Iff.rfl

/-! ### What goes out first -/

def words (c : Command) (tag : Tag) (waits : Bool) : Bytes :=
  Bytes.ofText tag.text ++ octet ' ' :: Bytes.ofText c.name ++
    c.arguments.flatMap (Argument.octets waits) ++ Bytes.crlf

/-- Where a command with these literals stops for the first time: at an announcement, or at its
end. -/
def stop : List Bytes → Bytes
  | [] => Bytes.crlf
  | data :: _ => octet ' ' :: announcement data.length true

/-- What can go out before the server has asked for a literal: the words in front of the first one,
and its announcement. -/
def opening (c : Command) (tag : Tag) : Bytes :=
  Bytes.ofText tag.text ++ octet ' ' :: Bytes.ofText c.name ++
    (c.arguments.takeWhile fun a => !a.isLiteral).flatMap (Argument.octets true) ++
    stop c.literals

theorem first_chunksAfter_true (chunk : Bytes) (arguments : List Argument) :
    (chunksAfter true chunk arguments).first =
      chunk ++ (arguments.takeWhile fun a => !a.isLiteral).flatMap (Argument.octets true) ++
        stop (arguments.filterMap Argument.literal?) := by
  induction arguments generalizing chunk with
  | nil => simp [chunksAfter, stop]
  | cons a rest ih =>
    cases a with
    | plain text =>
      have skipped : (Argument.plain text :: rest).filterMap Argument.literal? =
          rest.filterMap Argument.literal? := rfl
      rw [chunksAfter, ih, skipped]
      simp [Argument.isLiteral, Argument.octets]
    | literal data => simp [chunksAfter, stop, Argument.isLiteral, Argument.literal?]

theorem later_encode_false (c : Command) (tag : Tag) : (c.encode tag false).later = [] :=
  later_chunksAfter_false _ _

theorem first_encode_false (c : Command) (tag : Tag) :
    (c.encode tag false).first = c.words tag false := by
  have whole := octets_encode c tag false
  rw [Encoding.octets, Encoding.chunks, later_encode_false, List.flatten_singleton] at whole
  exact whole

theorem first_encode_true (c : Command) (tag : Tag) :
    (c.encode tag true).first = c.opening tag := first_chunksAfter_true _ _

structure Awaits (c : Command) (tag : Tag) (waiting : List Bytes) : Prop where
  count : waiting.length = c.literalCount
  begins : ∀ (i : Nat) (data : Bytes), c.literals[i]? = some data →
    ∃ chunk, waiting[i]? = some chunk ∧ data <+: chunk
  whole : c.opening tag ++ waiting.flatten = c.words tag true

theorem awaits_encode (c : Command) (tag : Tag) :
    c.Awaits tag (c.encode tag true).later where
  count := by
    rw [← length_literals]
    exact Nat.succ.inj (length_chunks_chunksAfter _ c.arguments)
  begins i data h := by
    obtain ⟨-, chunk, -, hc, -, begun⟩ :=
      @announced_chunksAfter (Bytes.ofText tag.text ++ octet ' ' :: Bytes.ofText c.name) data _ i h
    exact ⟨chunk, hc, begun⟩
  whole := by
    rw [words, ← octets_encode c tag true, opening, literals, ← first_chunksAfter_true]
    rfl

/-- So the octets tell whether the literals of a command wait. -/
theorem opening_ne_words {c : Command} (tag : Tag) (h : c.literals ≠ []) :
    c.opening tag ≠ c.words tag false := by
  intro same
  rw [← first_encode_true, ← first_encode_false] at same
  have count := (c.awaits_encode tag).count
  rw [later_eq_nil_of_first_eq c tag same.symm, ← length_literals] at count
  exact h (List.eq_nil_of_length_eq_zero count.symm)

end Command
end MailClient.Imap
