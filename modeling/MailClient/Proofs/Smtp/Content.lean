import Mathlib.Data.List.Basic
import MailClient.Smtp.Message

/-! The content of a message on its way to the receiver of RFC 5321, which takes the lines up to the
one with a single dot and drops the dot that begins another. The receiver gets the lines of the
message and stops where the content ends. To what goes out it makes no difference whether lines end
with a line feed or with CRLF, except where a line feed is all there is. -/
namespace MailClient.Smtp.Message

open Bytes (cr lf crlf)

variable {message line bs rest : Bytes}

/-! ### Receiving -/

def nextLine? : Bytes → Option (Bytes × Bytes)
  | [] => none
  | b :: bs =>
    if b = cr ∧ bs.head? = some lf then some ([], bs.tail)
    else (nextLine? bs).map fun (line, rest) => (b :: line, rest)

theorem length_lt_of_nextLine? (h : nextLine? bs = some (line, rest)) :
    rest.length < bs.length := by
  induction bs generalizing line with
  | nil => cases h
  | cons b bs ih =>
    unfold nextLine? at h
    split at h
    · cases h
      simp only [List.length_tail, List.length_cons]
      omega
    · obtain ⟨⟨line', rest'⟩, hn, he⟩ := Option.map_eq_some_iff.mp h
      cases he
      exact Nat.lt_succ_of_lt (ih hn)

def undotted (line : Bytes) : Bytes := if line.head? = some dot then line.tail else line

/-- The lines of some content, which ends with a single dot, and what comes after it. -/
def received? (bs : Bytes) : Option (List Bytes × Bytes) :=
  match h : nextLine? bs with
  | none => none
  | some (line, rest) =>
    if line = [dot] then some ([], rest)
    else
      have := length_lt_of_nextLine? h
      (received? rest).map fun (lines, after) => (undotted line :: lines, after)
termination_by bs.length

theorem received?_of_nextLine? (h : nextLine? bs = some (line, rest)) : received? bs =
    if line = [dot] then some ([], rest)
    else (received? rest).map fun (lines, after) => (undotted line :: lines, after) := by
  rw [received?]
  split
  next hn =>
    rw [hn] at h
    cases h
  next hn =>
    rw [hn] at h
    cases h
    rfl

/-- A line ends where it was ended, also if carriage returns stand in it or at its end. -/
theorem nextLine?_append (h : lf ∉ line) (rest : Bytes) :
    nextLine? (line ++ crlf ++ rest) = some (line, rest) := by
  induction line with
  | nil => rfl
  | cons b line ih =>
    obtain ⟨-, hl⟩ := not_or.mp (List.mem_cons.not.mp h)
    have next : (line ++ crlf ++ rest).head? ≠ some lf := by
      cases line with
      | nil => simp [crlf, show cr ≠ lf by decide]
      | cons b' line =>
        intro hn
        exact hl (Option.some.inj hn ▸ List.mem_cons_self)
    rw [List.cons_append, List.cons_append, nextLine?, if_neg fun hc => next hc.2, ih hl]
    rfl

/-- A line is received as it was before a dot was put in front of it. -/
theorem received?_encodeLine (h : lf ∉ line) (rest : Bytes) :
    received? (encodeLine line ++ rest) =
      (received? rest).map fun (lines, after) => (line :: lines, after) := by
  unfold encodeLine
  split
  next hd =>
    obtain ⟨tail, rfl⟩ := List.head?_eq_some_iff.mp hd
    have free : lf ∉ dot :: dot :: tail := by
      rw [List.mem_cons, not_or]
      exact ⟨by decide, h⟩
    rw [received?_of_nextLine? (nextLine?_append free rest), if_neg (by simp)]
    rfl
  next hd =>
    have ne : line ≠ [dot] := by
      rintro rfl
      exact hd rfl
    rw [received?_of_nextLine? (nextLine?_append h rest), if_neg ne, undotted, if_neg hd]

theorem received?_lines {lines : List Bytes} (h : ∀ line ∈ lines, lf ∉ line) (rest : Bytes) :
    received? (lines.flatMap encodeLine ++ dot :: crlf ++ rest) = some (lines, rest) := by
  induction lines with
  | nil =>
    have free : lf ∉ [dot] := by decide
    exact received?_of_nextLine? (nextLine?_append free rest)
  | cons line lines ih =>
    obtain ⟨free, h⟩ := List.forall_mem_cons.mp h
    rw [List.flatMap_cons, List.append_assoc, List.append_assoc, received?_encodeLine free,
      ← List.append_assoc, ih h]
    rfl

/-! ### The lines of a message -/

/-- The lines that end in `bs` or with it, where `line` is the part of a line in front of it. -/
def linesAfter (line : Bytes) : Bytes → List Bytes
  | [] => if line.isEmpty then [] else [dropFinal cr line]
  | b :: bs => if b = lf then dropFinal cr line :: linesAfter [] bs else linesAfter (line ++ [b]) bs

/-- What stands between the line feeds of a message. Behind one at its end there is nothing. -/
def parts (message : Bytes) : List Bytes :=
  if message.getLast? = some lf then (message.splitOn lf).dropLast else message.splitOn lf

theorem mem_of_mem_dropFinal {a b : UInt8} (h : a ∈ dropFinal b bs) : a ∈ bs := by
  unfold dropFinal at h
  split at h
  · exact List.dropLast_subset bs h
  · exact h

theorem dropFinal_concat (b : UInt8) (bs : Bytes) : dropFinal b (bs ++ [b]) = bs := by
  simp [dropFinal]

theorem parts_ended (h : lf ∉ line) : parts (line ++ [lf]) = [line] := by
  rw [parts, if_pos List.getLast?_concat, List.splitOn_append_cons_self_of_not_mem h]
  rfl

theorem parts_append (h : lf ∉ line) (hb : bs ≠ []) :
    parts (line ++ lf :: bs) = line :: parts bs := by
  have last : (line ++ lf :: bs).getLast? = bs.getLast? := by
    rw [List.getLast?_append, List.getLast?_cons]
    simp [List.getLast?_eq_some_getLast hb]
  unfold parts
  rw [last, List.splitOn_append_cons_self_of_not_mem h]
  split
  · exact List.dropLast_cons_of_ne_nil (List.splitOn_ne_nil _ _)
  · rfl

theorem linesAfter_eq_parts (h : lf ∉ line) (hne : line ++ bs ≠ []) :
    linesAfter line bs = (parts (line ++ bs)).map (dropFinal cr) := by
  induction bs generalizing line with
  | nil =>
    rw [List.append_nil] at hne ⊢
    have last : line.getLast? ≠ some lf := fun hl => h (List.mem_of_getLast? hl)
    rw [linesAfter, if_neg (by simpa using hne), parts, if_neg last,
      List.splitOn_eq_singleton h]
    rfl
  | cons b bs ih =>
    unfold linesAfter
    split
    next hb =>
      subst hb
      by_cases hbs : bs = []
      · subst hbs
        rw [parts_ended h]
        rfl
      · rw [parts_append h hbs, ih (by simp) (by simpa using hbs)]
        rfl
    next hb =>
      have free : lf ∉ line ++ [b] := by simp [h, Ne.symm hb]
      rw [ih free (by simp), List.append_assoc]
      rfl

theorem lines_eq_parts (h : message ≠ []) (hl : message ≠ [lf]) :
    lines message = (parts message).map (dropFinal cr) := by
  unfold lines parts
  split
  next last =>
    obtain ⟨body, rfl⟩ := List.getLast?_eq_some_iff.mp last
    have full : body ≠ [] := by
      rintro rfl
      exact hl rfl
    rw [dropFinal_concat, List.splitOn_append_cons_self, List.splitOn_nil, List.dropLast_concat]
    exact if_neg (by simpa using full)
  next last =>
    rw [dropFinal, if_neg last]
    exact if_neg (by simpa using h)

/-- Only of a message that is a line feed and nothing else the one line is lost. -/
theorem lines_eq_linesAfter (h : message ≠ [lf]) : lines message = linesAfter [] message := by
  by_cases hm : message = []
  · subst hm
    rfl
  · have all : linesAfter [] message = (parts ([] ++ message)).map (dropFinal cr) :=
      linesAfter_eq_parts (by simp) hm
    rw [lines_eq_parts hm h, all, List.nil_append]

theorem lf_notMem_linesAfter (h : lf ∉ line) : ∀ l ∈ linesAfter line bs, lf ∉ l := by
  have dropped {l : Bytes} (h : lf ∉ l) : lf ∉ dropFinal cr l := fun hm =>
    h (mem_of_mem_dropFinal hm)
  induction bs generalizing line with
  | nil =>
    unfold linesAfter
    split
    · simp
    · simpa using dropped h
  | cons b bs ih =>
    unfold linesAfter
    split
    · rw [List.forall_mem_cons]
      exact ⟨dropped h, ih (by simp)⟩
    next hb => exact ih (by simp [h, Ne.symm hb])

theorem lf_notMem_lines (message : Bytes) : ∀ line ∈ lines message, lf ∉ line := by
  by_cases h : message = [lf]
  · subst h
    simp [lines, dropFinal]
  · rw [lines_eq_linesAfter h]
    exact lf_notMem_linesAfter (by simp)

/-- What is sent is received, and the receiver goes on with what comes after it. -/
theorem received?_encode (message rest : Bytes) :
    received? (encode message ++ rest) = some (lines message, rest) :=
  received?_lines (lf_notMem_lines message) rest

/-- A message in which there is anything but line ends is received line by line, each as it stands
between its line ends. -/
theorem received?_eq_parts (h : ∃ b ∈ message, b ≠ cr ∧ b ≠ lf) (rest : Bytes) :
    received? (encode message ++ rest) = some ((parts message).map (dropFinal cr), rest) := by
  obtain ⟨b, hb, -, hlf⟩ := h
  have full : message ≠ [] := by
    rintro rfl
    cases hb
  have more : message ≠ [lf] := by
    rintro rfl
    exact hlf (List.mem_singleton.mp hb)
  rw [received?_encode, lines_eq_parts full more]

/-- Dots, carriage returns and an empty line are received as they are, and what comes next is kept
apart, though it begins like the end of the content. -/
theorem received?_dots :
    let message := Bytes.ofText ".\r\n..\r\r\n\n.a\rb"
    let rest := Bytes.ofText ".\r\nQUIT\r\n"
    (∃ b ∈ message, b ≠ cr ∧ b ≠ lf) ∧ received? (encode message ++ rest) =
      some ([".", "..\r", "", ".a\rb"].map Bytes.ofText, rest) := by
  intro message rest
  have filled : ∃ b ∈ message, b ≠ cr ∧ b ≠ lf := ⟨dot, by decide, by decide, by decide⟩
  refine ⟨filled, ?_⟩
  rw [received?_eq_parts filled]
  decide

/-! ### Line ends -/

def withReturnsAfter (returned : Bool) : Bytes → Bytes
  | [] => []
  | b :: bs =>
    (if b = lf ∧ returned = false then [cr, lf] else [b]) ++ withReturnsAfter (b == cr) bs

/-- A message with CRLF for each line feed that has no carriage return in front of it. -/
def withReturns (message : Bytes) : Bytes := withReturnsAfter false message

theorem linesAfter_withReturnsAfter (line bs : Bytes) :
    linesAfter line (withReturnsAfter (line.getLast? == some cr) bs) = linesAfter line bs := by
  induction bs generalizing line with
  | nil => rfl
  | cons b bs ih =>
    unfold withReturnsAfter
    by_cases hb : b = lf
    · subst hb
      have begun : linesAfter [] (withReturnsAfter (lf == cr) bs) = linesAfter [] bs := ih []
      by_cases hr : line.getLast? = some cr
      · rw [if_neg (by simp [hr])]
        simp [linesAfter, begun]
      · -- The return that is put in is the one that is dropped.
        have kept : dropFinal cr line = line := if_neg hr
        rw [if_pos (by simp [hr])]
        simp [linesAfter, begun, dropFinal_concat, kept, show cr ≠ lf by decide]
    · have more := ih (line ++ [b])
      rw [List.getLast?_concat] at more
      rw [if_neg fun hc => hb hc.1]
      simpa [linesAfter, hb] using more

theorem withReturns_ne (message : Bytes) : withReturns message ≠ [lf] := by
  cases message with
  | nil => simp [withReturns, withReturnsAfter]
  | cons b bs =>
    by_cases hb : b = lf
    · subst hb
      simp [withReturns, withReturnsAfter]
    · simp [withReturns, withReturnsAfter, hb]

theorem lines_withReturns (h : message ≠ [lf]) : lines (withReturns message) = lines message := by
  rw [lines_eq_linesAfter (withReturns_ne message), lines_eq_linesAfter h]
  exact linesAfter_withReturnsAfter [] message

/-- Line feeds and CRLF go out alike exactly if the message is not a line feed and nothing else. -/
theorem encode_withReturns_iff :
    encode (withReturns message) = encode message ↔ message ≠ [lf] := by
  constructor
  · rintro h rfl
    exact absurd h (by decide)
  · intro h
    rw [encode, encode, lines_withReturns h]

/-- A message of one empty line has that line when it goes out if CRLF ends it, and else it has no
line at all. -/
theorem encode_empty_line :
    encode (withReturns [lf]) ≠ encode [lf] ∧
      encode (withReturns [lf]) = Bytes.ofText "\r\n.\r\n" ∧ encode [lf] = Bytes.ofText ".\r\n" :=
  ⟨fun h => encode_withReturns_iff.mp h rfl, by decide, by decide⟩

end MailClient.Smtp.Message
