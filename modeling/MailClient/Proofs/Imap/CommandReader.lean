import MailClient.Imap.Octet
import MailClient.Proofs.Imap.Encoding
import MailClient.Proofs.Imap.Rendering

/-! Commands as a server reads them, after the grammar of RFC 9051. Whatever is given to a command
as an argument comes out of this reader as it was, and nothing else does: no text can end its
argument, or the command, too early or too late. -/
namespace MailClient.Imap

structure Understood where
  tag : Tag
  name : String
  arguments : List Bytes
  deriving DecidableEq, Repr

namespace CommandReader

def isVisible (b : UInt8) : Bool := 0x20 < b && b != 0x7F

def atomSpecials : List Char := ['(', ')', '\x7b', '%', '*', '"', '\\', ']']

def isAtom (b : UInt8) : Bool := 0x20 < b && b < 0x7F && !atomSpecials.any fun c => octet c == b

def isQuotable (b : UInt8) : Bool := b != 0 && b != Bytes.cr && b != Bytes.lf

def expect (word bs : Bytes) : Option Bytes :=
  if word.isPrefixOf bs then some (bs.drop word.length) else none

def quoted (afterBackslash : Bool) : Bytes → Option (Bytes × Bytes)
  | [] => none
  | b :: bs =>
    if afterBackslash then
      if b = octet '"' || b = octet '\\' then
        (quoted false bs).map fun (value, rest) => (b :: value, rest)
      else none
    else if b = octet '"' then some ([], bs)
    else if b = octet '\\' then quoted true bs
    else if isQuotable b then (quoted false bs).map fun (value, rest) => (b :: value, rest)
    else none

def skipPlus : Bytes → Bytes
  | [] => []
  | b :: bs => if b = octet '+' then bs else b :: bs

def literal (bs : Bytes) : Option (Bytes × Bytes) :=
  let digits := bs.takeWhile Octet.isDigit
  let size := Text.digitsValue 0 (digits.map latin1)
  match expect (octet '\x7d' :: Bytes.crlf) (skipPlus (bs.dropWhile Octet.isDigit)) with
  | none => none
  | some data =>
    if digits ≠ [] ∧ size ≤ data.length then some (data.take size, data.drop size) else none

def argument : Bytes → Option (Bytes × Bytes)
  | [] => none
  | b :: bs =>
    if b = octet '"' then quoted false bs
    else if b = octet '\x7b' then literal bs
    else if isAtom b then some ((b :: bs).takeWhile isAtom, (b :: bs).dropWhile isAtom)
    else none

theorem length_of_expect {word bs rest : Bytes} (h : expect word bs = some rest) :
    rest.length ≤ bs.length := by
  unfold expect at h
  split at h
  · cases h
    rw [List.length_drop]
    omega
  · cases h

theorem length_of_quoted {afterBackslash : Bool} {bs value rest : Bytes}
    (h : quoted afterBackslash bs = some (value, rest)) : rest.length ≤ bs.length := by
  induction bs generalizing afterBackslash value with
  | nil => cases h
  | cons b bs ih =>
    have kept (h : ((quoted false bs).map fun (value, rest) => (b :: value, rest)) =
        some (value, rest)) : rest.length ≤ (b :: bs).length := by
      obtain ⟨⟨value', rest'⟩, hq, he⟩ := Option.map_eq_some_iff.mp h
      cases he
      exact Nat.le_succ_of_le (ih hq)
    rw [quoted] at h
    split at h
    · split at h
      · exact kept h
      · cases h
    · split at h
      · cases h
        exact Nat.le_succ _
      · split at h
        · exact Nat.le_succ_of_le (ih h)
        · split at h
          · exact kept h
          · cases h

theorem length_skipPlus_le (bs : Bytes) : (skipPlus bs).length ≤ bs.length := by
  unfold skipPlus
  split
  · exact Nat.le_refl _
  · split
    · exact Nat.le_succ _
    · exact Nat.le_refl _

theorem length_of_literal {bs value rest : Bytes} (h : literal bs = some (value, rest)) :
    rest.length ≤ bs.length := by
  unfold literal at h
  dsimp only at h
  split at h
  · cases h
  next data he =>
    split at h
    · cases h
      calc (data.drop _).length ≤ data.length := by rw [List.length_drop]; omega
        _ ≤ _ := length_of_expect he
        _ ≤ _ := length_skipPlus_le _
        _ ≤ bs.length := (List.dropWhile_sublist _).length_le
    · cases h

theorem length_of_argument {bs value rest : Bytes} (h : argument bs = some (value, rest)) :
    rest.length ≤ bs.length := by
  unfold argument at h
  split at h
  · cases h
  next b bs =>
    split at h
    · exact Nat.le_succ_of_le (length_of_quoted h)
    · split at h
      · exact Nat.le_succ_of_le (length_of_literal h)
      · split at h
        · cases h
          exact (List.dropWhile_sublist _).length_le
        · cases h

def arguments : Bytes → Option (List Bytes × Bytes)
  | [] => none
  | b :: bs =>
    if b = octet ' ' then
      match h : argument bs with
      | none => none
      | some (value, rest) =>
        have := length_of_argument h
        (arguments rest).map fun (values, rest) => (value :: values, rest)
    else (expect Bytes.crlf (b :: bs)).map fun rest => ([], rest)
termination_by bs => bs.length
decreasing_by
  simp only [List.length_cons]
  omega

/-- Reads the command in front of some octets, and gives what follows it. -/
def read (bs : Bytes) : Option (Understood × Bytes) := do
  let tag := bs.takeWhile Octet.isTag
  let afterTag ← expect [octet ' '] (bs.dropWhile Octet.isTag)
  let name := afterTag.takeWhile isVisible
  let (values, rest) ← arguments (afterTag.dropWhile isVisible)
  return (⟨⟨Text.Utf8.text tag⟩, Text.Utf8.text name, values⟩, rest)

/-! ### What has been encoded -/

variable {word bs value rest : Bytes} {kind : UInt8 → Bool}

theorem expect_append (word bs : Bytes) : expect word (word ++ bs) = some bs := by
  have h : word.isPrefixOf (word ++ bs) = true := by simp
  rw [expect, if_pos h, List.drop_left]

/-- A run of octets of one kind ends where the kind does. -/
theorem run_append (hw : ∀ b ∈ word, kind b = true) (hr : ∀ b ∈ rest.head?, kind b = false) :
    (word ++ rest).takeWhile kind = word ∧ (word ++ rest).dropWhile kind = rest := by
  rw [List.takeWhile_append_of_pos hw, List.dropWhile_append_of_pos hw]
  cases rest with
  | nil => simp
  | cons b rest =>
    have hb : ¬ kind b = true := by simp [hr b rfl]
    rw [List.takeWhile_cons_of_neg hb, List.dropWhile_cons_of_neg hb, List.append_nil]
    exact ⟨rfl, rfl⟩

theorem quoted_escaped (h : ∀ b ∈ value, isQuotable b = true) (rest : Bytes) :
    quoted false (Grammar.escaped value ++ octet '"' :: rest) = some (value, rest) := by
  induction value with
  | nil => rfl
  | cons b value ih =>
    obtain ⟨hb, hv⟩ := List.forall_mem_cons.mp h
    rw [Grammar.escaped]
    split
    next he =>
      have hs : quoted false (octet '\\' :: b :: (Grammar.escaped value ++ octet '"' :: rest)) =
        quoted true (b :: (Grammar.escaped value ++ octet '"' :: rest)) := rfl
      rw [List.cons_append, List.cons_append, hs, quoted, if_pos rfl, if_pos he, ih hv]
      rfl
    next he =>
      simp only [Bool.or_eq_true, decide_eq_true_eq, not_or] at he
      rw [List.cons_append, quoted, if_neg Bool.false_ne_true, if_neg he.1, if_neg he.2, if_pos hb,
        ih hv]
      rfl

/-- An announced literal is read up to its last octet. -/
theorem literal_announced (data rest : Bytes) (waits : Bool) :
    ∃ tail, Command.announcement data.length waits ++ data ++ rest = octet '\x7b' :: tail ∧
      literal tail = some (data, rest) := by
  let digits := Bytes.ofText (toString data.length)
  let after := octet '\x7d' :: Bytes.crlf ++ (data ++ rest)
  let plus : Bytes := if waits then [] else [octet '+']
  have announced : Command.announcement data.length waits ++ data ++ rest =
      octet '\x7b' :: (digits ++ (plus ++ after)) := by
    rw [Command.announcement_eq]
    simp [digits, plus, after]
  refine ⟨digits ++ (plus ++ after), announced, ?_⟩
  have hdigits : ∀ b ∈ digits, Octet.isDigit b = true := fun b => Octet.isDigit_of_mem_ofText
  have hstop : ∀ b ∈ (plus ++ after).head?, Octet.isDigit b = false := by
    cases waits with
    | true =>
      rintro b ⟨⟩
      decide
    | false =>
      rintro b ⟨⟩
      decide
  have hskip : skipPlus (plus ++ after) = after := by cases waits <;> rfl
  have hsize : Text.digitsValue 0 (digits.map latin1) = data.length := by
    rw [Text.map_latin1_toString, Text.digitsValue_eq, Nat.ofDigitChars_ten_toDigits]
  have hne : digits ≠ [] := by
    intro he
    have : Nat.toDigits 10 data.length = [] := by
      rw [← Text.map_latin1_toString, show Bytes.ofText _ = [] from he, List.map_nil]
    exact Nat.toDigits_ne_nil this
  obtain ⟨htake, hdrop⟩ := run_append hdigits hstop
  rw [literal, htake, hdrop, hskip, expect_append]
  dsimp only
  rw [hsize, if_pos ⟨hne, by simp⟩, List.take_left, List.drop_left]

/-! ### Texts -/

theorem escaped_plain (h : ∀ b ∈ word, b ≠ octet '"' ∧ b ≠ octet '\\') :
    Grammar.escaped word = word := by
  induction word with
  | nil => rfl
  | cons b word ih =>
    obtain ⟨⟨hq, hs⟩, hw⟩ := List.forall_mem_cons.mp h
    rw [Grammar.escaped, if_neg (by simp [hq, hs]), ih hw]

theorem encoded_quoteChars (cs : List Char) :
    (Argument.quoteChars cs).flatMap String.utf8EncodeChar =
      Grammar.escaped (cs.flatMap String.utf8EncodeChar) := by
  induction cs with
  | nil => rfl
  | cons c cs ih =>
    rw [Argument.quoteChars, List.flatMap_cons, Grammar.escaped_append, ← ih]
    split
    next hc =>
      rw [Bool.or_eq_true, decide_eq_true_eq, decide_eq_true_eq] at hc
      rcases hc with rfl | rfl
      · rfl
      · rfl
    next hc =>
      simp only [Bool.or_eq_true, decide_eq_true_eq, not_or] at hc
      have hplain : Grammar.escaped (String.utf8EncodeChar c) = String.utf8EncodeChar c :=
        escaped_plain fun b hb =>
          ⟨Text.Utf8.ne_of_mem_encoded (by decide) hc.1 hb,
            Text.Utf8.ne_of_mem_encoded (by decide) hc.2 hb⟩
      rw [hplain, List.flatMap_cons]

theorem octets_quoted (s : String) (waits : Bool) : (Argument.quoted s).octets waits =
    octet ' ' :: octet '"' :: (Grammar.escaped (Bytes.ofText s) ++ [octet '"']) := by
  have hq : String.utf8EncodeChar '"' = [octet '"'] := rfl
  rw [Argument.quoted, Argument.octets, Bytes.ofText, String.toList_ofList, List.cons_append,
    List.flatMap_cons, List.flatMap_append, encoded_quoteChars, hq]
  rfl

/-- Octets that need neither a literal nor quotes can stand in an atom. -/
theorem isAtom_of_plain {b : UInt8} (hl : Argument.needsLiteral b = false)
    (hq : Argument.needsQuotes b = false) : isAtom b = true := by
  obtain ⟨⟨i⟩⟩ := b
  revert i
  decide +kernel

theorem isQuotable_of_short {b : UInt8} (h : Argument.needsLiteral b = false) :
    isQuotable b = true := by
  obtain ⟨⟨i⟩⟩ := b
  revert i
  decide +kernel

/-! ### Commands -/

/-- What a caller has for an argument: a text in whatever form can hold it, or octets. -/
inductive Given where
  | text (s : String)
  | data (bs : Bytes)
  deriving DecidableEq, Repr

def Given.argument : Given → Argument
  | .text s => .ofText s
  | .data bs => .literal bs

def Given.octets : Given → Bytes
  | .text s => Bytes.ofText s
  | .data bs => bs

theorem argument_literal (data rest : Bytes) (waits : Bool) :
    ∃ tail, (Argument.literal data).octets waits ++ rest = octet ' ' :: tail ∧
      argument tail = some (data, rest) := by
  obtain ⟨tail, ht, hl⟩ := literal_announced data rest waits
  refine ⟨octet '\x7b' :: tail, by rw [← ht]; simp [Argument.octets], ?_⟩
  rw [argument, if_neg (by decide), if_pos rfl, hl]

/-- An argument is read as what it was given for, as far as the octet behind it that ends it. -/
theorem argument_given (a : Given) (waits : Bool)
    (hr : ∀ b ∈ rest.head?, isAtom b = false) :
    ∃ tail, a.argument.octets waits ++ rest = octet ' ' :: tail ∧
      argument tail = some (a.octets, rest) := by
  cases a with
  | data bs => exact argument_literal bs rest waits
  | text s =>
    unfold Given.argument Argument.ofText Given.octets
    dsimp only
    split
    · exact argument_literal _ rest waits
    next hl =>
      rw [Bool.not_eq_true, List.any_eq_false] at hl
      have short : ∀ b ∈ Bytes.ofText s, Argument.needsLiteral b = false := by
        intro b hb
        simpa using hl b hb
      split
      · refine ⟨octet '"' :: (Grammar.escaped (Bytes.ofText s) ++ octet '"' :: rest),
          by simp [octets_quoted], ?_⟩
        rw [argument, if_pos rfl]
        exact quoted_escaped (fun b hb => isQuotable_of_short (short b hb)) rest
      next hq =>
        rw [Bool.or_eq_true, not_or, List.isEmpty_iff, Bool.not_eq_true, List.any_eq_false] at hq
        obtain ⟨hne, hq⟩ := hq
        have atom : ∀ b ∈ Bytes.ofText s, isAtom b = true := by
          intro b hb
          exact isAtom_of_plain (short b hb) (by simpa using hq b hb)
        obtain ⟨htake, hdrop⟩ := run_append atom hr
        obtain ⟨b, bs, hs⟩ := List.exists_cons_of_ne_nil hne
        refine ⟨Bytes.ofText s ++ rest, rfl, ?_⟩
        have hb : isAtom b = true := atom b (by simp [hs])
        have notQuote : b ≠ octet '"' := by
          rintro rfl
          cases hb
        have notBrace : b ≠ octet '\x7b' := by
          rintro rfl
          cases hb
        rw [hs, List.cons_append] at htake hdrop ⊢
        rw [argument, if_neg notQuote, if_neg notBrace, if_pos hb, htake, hdrop]

/-- Arguments begin with a space, and where there are none a line end comes next. -/
theorem head_arguments (as : List Given) (waits : Bool) (rest : Bytes)
    (hs : kind (octet ' ') = false) (hc : kind Bytes.cr = false) :
    ∀ b ∈ ((as.map Given.argument).flatMap (Argument.octets waits) ++ Bytes.crlf ++ rest).head?,
      kind b = false := by
  cases as with
  | nil =>
    rintro b ⟨⟩
    exact hc
  | cons a as =>
    have hspace : (((a :: as).map Given.argument).flatMap (Argument.octets waits) ++
        Bytes.crlf ++ rest).head? = some (octet ' ') := by
      cases h : a.argument <;> simp [h, Argument.octets]
    rw [hspace]
    rintro b ⟨⟩
    exact hs

theorem arguments_given (as : List Given) (waits : Bool) (rest : Bytes) :
    arguments ((as.map Given.argument).flatMap (Argument.octets waits) ++ Bytes.crlf ++ rest) =
      some (as.map Given.octets, rest) := by
  induction as with
  | nil =>
    change arguments (Bytes.cr :: Bytes.lf :: rest) = _
    have he : expect Bytes.crlf (Bytes.cr :: Bytes.lf :: rest) = some rest :=
      expect_append Bytes.crlf rest
    rw [arguments, if_neg (by decide), he]
    rfl
  | cons a as ih =>
    let after := (as.map Given.argument).flatMap (Argument.octets waits) ++ Bytes.crlf ++ rest
    have ends : ∀ b ∈ after.head?, isAtom b = false :=
      head_arguments as waits rest (by decide) (by decide)
    obtain ⟨tail, ht, ha⟩ := argument_given a waits ends
    have hsplit : ((a :: as).map Given.argument).flatMap (Argument.octets waits) ++ Bytes.crlf ++
        rest = octet ' ' :: tail := by
      rw [← ht]
      simp [after]
    rw [hsplit, arguments, if_pos rfl]
    split
    next hn =>
      rw [ha] at hn
      cases hn
    next value left hs =>
      rw [ha] at hs
      cases hs
      rw [ih]
      rfl

/-- A command is understood as it was meant, and ends where it was meant to end. Its literals may
wait or not. -/
theorem read_encode {tag : Tag} {name : String} (as : List Given) (sensitive waits : Bool)
    (rest : Bytes) (ht : ∀ b ∈ Bytes.ofText tag.text, Octet.isTag b = true)
    (hn : ∀ b ∈ Bytes.ofText name, isVisible b = true) :
    read ((Command.encode ⟨name, as.map Given.argument, sensitive⟩ tag waits).octets ++ rest) =
      some (⟨tag, name, as.map Given.octets⟩, rest) := by
  let after := (as.map Given.argument).flatMap (Argument.octets waits) ++ Bytes.crlf ++ rest
  have hline : (Command.encode ⟨name, as.map Given.argument, sensitive⟩ tag waits).octets ++ rest =
      Bytes.ofText tag.text ++ ([octet ' '] ++ (Bytes.ofText name ++ after)) := by
    rw [Command.octets_encode]
    simp [after]
  have endsName : ∀ b ∈ after.head?, isVisible b = false :=
    head_arguments as waits rest (by decide) (by decide)
  have endsTag : ∀ b ∈ ([octet ' '] ++ (Bytes.ofText name ++ after)).head?,
      Octet.isTag b = false := by
    rintro b ⟨⟩
    decide
  obtain ⟨htag, hafter⟩ := run_append ht endsTag
  obtain ⟨hname, hargs⟩ := run_append hn endsName
  rw [hline, read, htag, hafter, expect_append]
  change (arguments ((Bytes.ofText name ++ after).dropWhile isVisible)).bind _ = _
  rw [hargs, hname, arguments_given]
  simp

/-- Line ends in a user name and quotes in a password, in front of another command. -/
theorem read_encode_login :
    (∀ b ∈ Bytes.ofText "A7", Octet.isTag b = true) ∧
    (∀ b ∈ Bytes.ofText "LOGIN", isVisible b = true) ∧
    read ((Command.encode ⟨"LOGIN", [.ofText "a\r\nA8 NOOP", .ofText "\"\\", .literal [0, 255]],
        true⟩ ⟨"A7"⟩ true).octets ++ Bytes.line "A9 NOOP") =
      some (⟨⟨"A7"⟩, "LOGIN", [Bytes.ofText "a\r\nA8 NOOP", Bytes.ofText "\"\\", [0, 255]]⟩,
        Bytes.line "A9 NOOP") := by
  have ht : ∀ b ∈ Bytes.ofText "A7", Octet.isTag b = true := by decide +kernel
  have hn : ∀ b ∈ Bytes.ofText "LOGIN", isVisible b = true := by decide +kernel
  refine ⟨ht, hn, ?_⟩
  exact @read_encode ⟨"A7"⟩ "LOGIN" [.text "a\r\nA8 NOOP", .text "\"\\", .data [0, 255]] true true
    (Bytes.line "A9 NOOP") ht hn

end CommandReader
end MailClient.Imap
