import Mathlib.Data.List.Induction
import MailClient.Proofs.Smtp.Challenges

/-! The format of replies. A grammar says which octets are a reply, line by line, and knows nothing
of how they are read; what is read is what the grammar derives. -/
namespace MailClient.Smtp

namespace Reply

/-! ### Grammar -/

inductive RawLine : Bytes → String → Prop where
  | mk {text : String} (returns : Nat) : '\n' ∉ text.toList → text.toList.getLast? ≠ some '\r' →
      (Bytes.ofText text).length + returns + 1 ≤ Reading.lineLimit →
      RawLine (Bytes.ofText text ++ List.replicate returns Bytes.cr ++ [Bytes.lf]) text

inductive IsCode : String → Nat → Prop where
  | mk {a b c : Char} : a.isDigit → b.isDigit → c.isDigit →
      IsCode (String.ofList [a, b, c]) (Text.digitsValue 0 [a, b, c])

/-- The lines of a reply with their texts. A hyphen after the code means that more lines follow, and
blank lines before the last line do not count. -/
inductive Lines (code : String) : Bytes → List String → Prop where
  | blank {line rest : Bytes} {texts : List String} : RawLine line "" → Lines code rest texts →
      Lines code (line ++ rest) texts
  | more {line rest : Bytes} {text : String} {texts : List String} :
      RawLine line (code ++ "-" ++ text) → Lines code rest texts →
      Lines code (line ++ rest) (text :: texts)
  | last {line : Bytes} {text : String} : RawLine line (code ++ " " ++ text) →
      Lines code line [text]
  | bare {line : Bytes} : RawLine line code → Lines code line [""]

inductive Written : Bytes → Reply → Prop where
  | mk {code : String} {value : Nat} {bs : Bytes} {texts : List String} : IsCode code value →
      Lines code bs texts → texts.length ≤ Reading.lineCountLimit → Written bs ⟨value, texts⟩

def render (code : String) : List String → Bytes
  | [] => []
  | [text] => Bytes.line (code ++ " " ++ text)
  | text :: texts => Bytes.line (code ++ "-" ++ text) ++ render code texts

structure IsText (text : String) : Prop where
  noLineFeed : '\n' ∉ text.toList
  noReturn : text.toList.getLast? ≠ some '\r'
  fits : (Bytes.ofText text).length + 6 ≤ Reading.lineLimit

end Reply

/-! ### Lines -/

namespace Reading

open Reply (RawLine)

variable {text : String} {before : List String} {line bs rest : Bytes} {reply : Reply}

theorem lf_mem_encoded {c : Char} (h : Bytes.lf ∈ String.utf8EncodeChar c) : c = '\n' := by
  have ascii : c.toNat < 128 := by
    by_contra high
    exact absurd (Text.Utf8.le_of_mem_encoded (Nat.le_of_not_lt high) h) (by decide)
  rw [Text.encoded_of_ascii ascii, List.mem_singleton] at h
  rw [← Text.latin1_octet ascii, ← h]
  rfl

theorem lf_mem_ofText : Bytes.lf ∈ Bytes.ofText text ↔ '\n' ∈ text.toList := by
  unfold Bytes.ofText
  rw [List.mem_flatMap]
  constructor
  · rintro ⟨c, hc, hb⟩
    exact lf_mem_encoded hb ▸ hc
  · intro hc
    exact ⟨'\n', hc, by decide⟩

theorem ofText_returns (returns : Nat) :
    Bytes.ofText (String.ofList (List.replicate returns '\r')) =
      List.replicate returns Bytes.cr := by
  have ascii : ∀ c ∈ (String.ofList (List.replicate returns '\r')).toList, c.toNat < 128 := by
    intro c hc
    rw [String.toList_ofList] at hc
    rw [List.eq_of_mem_replicate hc]
    decide
  rw [Text.ofText_of_ascii ascii, String.toList_ofList, List.map_replicate]
  rfl

def withEnd (text : String) (returns : Nat) : String :=
  text ++ String.ofList (List.replicate returns '\r') ++ "\n"

theorem ofText_withEnd (text : String) (returns : Nat) : Bytes.ofText (withEnd text returns) =
    Bytes.ofText text ++ List.replicate returns Bytes.cr ++ [Bytes.lf] := by
  rw [withEnd, Text.Utf8.ofText_append, Text.Utf8.ofText_append, ofText_returns]
  rfl

theorem dropEndWhile_concat (p : Char → Bool) (cs : List Char) (c : Char) :
    Text.dropEndWhile p (cs ++ [c]) = if p c then Text.dropEndWhile p cs else cs ++ [c] := by
  unfold Text.dropEndWhile
  rw [List.reverse_append, List.reverse_singleton, List.singleton_append, List.dropWhile_cons]
  split_ifs
  · rfl
  · simp

theorem toList_withoutEnd (text : String) : (withoutEnd text).toList =
    Text.dropEndWhile (fun c => c = '\r' || c = '\n') text.toList := String.toList_ofList

/-- Where there is no line feed, only carriage returns are taken from the end. -/
theorem dropped_returns {cs : List Char} (hl : '\n' ∉ cs) :
    ∃ returns, cs = Text.dropEndWhile (fun c => c = '\r' || c = '\n') cs ++
        List.replicate returns '\r' ∧
      (Text.dropEndWhile (fun c => c = '\r' || c = '\n') cs).getLast? ≠ some '\r' := by
  induction cs using List.reverseRecOn with
  | nil => exact ⟨0, rfl, by decide⟩
  | append_singleton cs c ih =>
    have inner : '\n' ∉ cs := fun h => hl (List.mem_append_left _ h)
    have other : c ≠ '\n' := fun h => hl (h ▸ List.mem_append_right _ (List.mem_singleton.mpr rfl))
    rw [dropEndWhile_concat]
    by_cases hc : c = '\r'
    · obtain ⟨returns, split, last⟩ := ih inner
      rw [if_pos (by simp [hc])]
      refine ⟨returns + 1, ?_, last⟩
      rw [List.replicate_succ', ← List.append_assoc, ← split, hc]
    · rw [if_neg (by simp [hc, other])]
      exact ⟨0, by simp, by simpa using hc⟩

theorem withoutEnd_withEnd (hl : '\n' ∉ text.toList) (hr : text.toList.getLast? ≠ some '\r')
    (returns : Nat) : withoutEnd (withEnd text returns) = text := by
  have drops : Text.dropEndWhile (fun c => c = '\r' || c = '\n')
      (text.toList ++ List.replicate returns '\r') = text.toList := by
    induction returns with
    | zero =>
      obtain ⟨none, split, -⟩ := dropped_returns hl
      cases none with
      | zero => simpa using split.symm
      | succ n =>
        rw [split, List.replicate_succ', ← List.append_assoc] at hr
        simp at hr
    | succ n ih =>
      rwa [List.replicate_succ', ← List.append_assoc, dropEndWhile_concat, if_pos (by decide)]
  have whole : (withEnd text returns).toList =
      text.toList ++ List.replicate returns '\r' ++ ['\n'] := by
    simp [withEnd]
  rw [← String.toList_inj, toList_withoutEnd, whole, dropEndWhile_concat, if_pos (by decide), drops]

/-- Decoded octets up to a line feed are a line with its line end. -/
theorem eq_withEnd {body : Bytes} (hb : Bytes.lf ∉ body)
    (ht : Bytes.ofText text = body ++ [Bytes.lf]) :
    ∃ returns, text = withEnd (withoutEnd text) returns ∧ '\n' ∉ (withoutEnd text).toList ∧
      (withoutEnd text).toList.getLast? ≠ some '\r' := by
  have fed : '\n' ∈ text.toList := by
    rw [← lf_mem_ofText, ht]
    simp
  obtain ⟨front, back, split, free⟩ := List.eq_append_cons_of_mem fed
  have octets : Bytes.ofText text =
      Bytes.ofText (String.ofList front) ++ Bytes.lf :: Bytes.ofText (String.ofList back) := by
    simp [Bytes.ofText, split]
    rfl
  rw [ht] at octets
  obtain ⟨-, -, rest⟩ := (List.append_cons_inj_of_notMem hb List.not_mem_nil).mp octets
  obtain rfl : back = [] := by
    by_contra more
    exact Text.Utf8.ofText_ne_nil (by simpa using more) rest.symm
  obtain ⟨returns, kept, last⟩ := dropped_returns free
  have cut : (withoutEnd text).toList =
      Text.dropEndWhile (fun c => c = '\r' || c = '\n') front := by
    rw [toList_withoutEnd, split, dropEndWhile_concat, if_pos (by decide)]
  refine ⟨returns, ?_, ?_, ?_⟩
  · rw [← String.toList_inj, withEnd, String.toList_append, String.toList_append, cut,
      String.toList_ofList, ← kept, split]
    rfl
  · rw [cut]
    intro inside
    exact free (kept ▸ List.mem_append_left _ inside)
  · rwa [cut]

/-- An overlong line is not read. -/
theorem not_done_of_long {r : Reading} (hb : ∀ b ∈ bs, b ≠ Bytes.lf) (room : 0 < r.room)
    (long : r.room ≤ bs.length) (rest left : Bytes) :
    r.consume (bs ++ rest) ≠ .done reply left := by
  induction bs generalizing r with
  | nil => exact absurd long (Nat.not_le_of_lt room)
  | cons b bs ih =>
    obtain ⟨other, others⟩ := List.forall_mem_cons.mp hb
    rw [List.cons_append, consume]
    unfold step
    dsimp only
    by_cases more : 1 < r.room
    · rw [if_pos (by simp [other, more])]
      exact ih others (by dsimp only; omega) (by dsimp only; simp at long; omega)
    · rw [if_neg (by simp [more])]
      cases Text.Utf8.decode (b :: r.line).reverse with
      | error flaw => simp
      | ok text => simp [other]

def Move.onward (rest : Bytes) : Move → Wire.Progress Reading Error Reply
  | .more r => r.consume rest
  | .done reply => .done reply rest
  | .broken e => .broken e rest

/-- A line is read at once, whatever follows it. -/
theorem consume_raw (h : RawLine line text) (before : List String) (rest : Bytes) :
    (atLine before).consume (line ++ rest) = (addLine before text).onward rest := by
  cases h with
  | mk returns hl hr fits =>
  have free : ∀ b ∈ Bytes.ofText text ++ List.replicate returns Bytes.cr, b ≠ Bytes.lf := by
    rintro b hb rfl
    rcases List.mem_append.mp hb with inside | ended
    · exact hl (lf_mem_ofText.mp inside)
    · exact absurd (List.eq_of_mem_replicate ended) (by decide)
  have room : (Bytes.ofText text ++ List.replicate returns Bytes.cr).length <
      (atLine before).room := by
    rw [List.length_append, List.length_replicate]
    exact fits
  have step (room : Nat) :
      step ⟨before, (Bytes.ofText text ++ List.replicate returns Bytes.cr).reverse ++ [], room⟩
        Bytes.lf = addLine before text := by
    unfold step
    dsimp only
    rw [if_neg (by simp), List.append_nil, List.reverse_cons, List.reverse_reverse,
      ← ofText_withEnd, Text.Utf8.decode_ofText]
    dsimp only
    rw [if_pos rfl, withoutEnd_withEnd hl hr]
  rw [List.append_assoc _ [Bytes.lf] rest, consume_octets free room, List.singleton_append, consume,
    show (atLine before).before = before from rfl, show (atLine before).line = [] from rfl, step]
  rfl

/-- Nothing is read before a line is whole. -/
theorem line_of_consume (h : (atLine before).consume bs = .done reply rest) :
    ∃ line text later, bs = line ++ later ∧ RawLine line text := by
  have spacious : 0 < (atLine before).room := show 0 < lineLimit by decide
  by_cases fed : Bytes.lf ∈ bs
  · obtain ⟨body, later, rfl, free⟩ := List.eq_append_cons_of_mem fed
    have others : ∀ b ∈ body, b ≠ Bytes.lf := fun b hb he => free (he ▸ hb)
    by_cases room : body.length < lineLimit
    · rw [consume_octets others room, consume] at h
      unfold step at h
      dsimp only at h
      rw [if_neg (by simp), show (atLine before).line = [] from rfl, List.append_nil,
        List.reverse_cons, List.reverse_reverse] at h
      cases hd : Text.Utf8.decode (body ++ [Bytes.lf]) with
      | error flaw => simp [hd] at h
      | ok text =>
        have octets := Text.Utf8.eq_ofText_of_decode hd
        obtain ⟨returns, whole, hl, hr⟩ := eq_withEnd free octets.symm
        have body' : body ++ [Bytes.lf] = Bytes.ofText (withoutEnd text) ++
            List.replicate returns Bytes.cr ++ [Bytes.lf] := by
          rw [octets, ← ofText_withEnd, ← whole]
        have line : RawLine (body ++ [Bytes.lf]) (withoutEnd text) := by
          rw [body']
          refine .mk returns hl hr ?_
          rw [List.append_cancel_right body', List.length_append, List.length_replicate] at room
          exact room
        exact ⟨_, _, later, by simp, line⟩
    · exact absurd h (not_done_of_long others spacious (Nat.le_of_not_lt room) _ _)
  · have others : ∀ b ∈ bs, b ≠ Bytes.lf := fun b hb he => fed (he ▸ hb)
    rw [← List.append_nil bs] at h
    by_cases room : bs.length < lineLimit
    · rw [consume_octets others room] at h
      cases h
    · exact absurd h (not_done_of_long others spacious (Nat.le_of_not_lt room) _ _)

/-! ### Replies as lines -/

inductive RawLines : Bytes → List String → Prop where
  | blank {line rest : Bytes} {lines : List String} : RawLine line "" → RawLines rest lines →
      RawLines (line ++ rest) lines
  | more {line rest : Bytes} {text : String} {lines : List String} : RawLine line text →
      text ≠ "" → Reply.isLastLine text = false → RawLines rest lines →
      RawLines (line ++ rest) (text :: lines)
  | last {line : Bytes} {text : String} : RawLine line text → text ≠ "" →
      Reply.isLastLine text = true → RawLines line [text]

theorem RawLines.ne_nil {lines : List String} (h : RawLines bs lines) : lines ≠ [] := by
  induction h with
  | blank _ _ ih => exact ih
  | more | last => simp

theorem RawLine.length_pos (h : RawLine line text) : 0 < line.length := by
  cases h
  rw [List.length_append, List.length_singleton]
  omega

theorem addLine_more (hn : text ≠ "") (hl : Reply.isLastLine text = false) :
    addLine before text = if lineCountLimit ≤ before.length + 1
      then .broken (.violation .tooManyLines) else .more (atLine (text :: before)) := by
  unfold addLine
  rw [if_neg (by simpa using hn), if_neg (by simp [hl])]
  rfl

theorem addLine_last (hn : text ≠ "") (hl : Reply.isLastLine text = true) :
    addLine before text = match Reply.ofLines (before.reverse ++ [text]) with
      | .ok reply => .done reply
      | .error v => .broken (.violation v) := by
  rw [← List.reverse_cons]
  unfold addLine
  rw [if_neg (by simpa using hn)]
  exact if_pos hl

/-- What is read after some lines are the lines up to the last one. -/
theorem consume_lines_iff (hb : before.length < lineCountLimit) :
    (atLine before).consume bs = .done reply rest ↔ ∃ taken lines, bs = taken ++ rest ∧
      RawLines taken lines ∧ before.length + lines.length ≤ lineCountLimit ∧
      Reply.ofLines (before.reverse ++ lines) = .ok reply := by
  constructor
  · intro h
    induction hn : bs.length using Nat.strongRecOn generalizing before bs with
    | ind n ih =>
    obtain ⟨line, text, later, rfl, raw⟩ := line_of_consume h
    have shorter : later.length < n := by
      have := RawLine.length_pos raw
      rw [List.length_append] at hn
      omega
    rw [consume_raw raw] at h
    by_cases empty : text = ""
    · subst empty
      obtain ⟨taken, lines, rfl, more, count, parsed⟩ := ih _ shorter hb h rfl
      exact ⟨line ++ taken, lines, by simp, .blank raw more, count, parsed⟩
    · cases last : Reply.isLastLine text with
      | true =>
        rw [addLine_last empty last] at h
        cases parsed : Reply.ofLines (before.reverse ++ [text]) with
        | error v =>
          rw [parsed] at h
          cases h
        | ok found =>
          rw [parsed] at h
          cases h
          exact ⟨line, [text], rfl, .last raw empty last, hb, parsed⟩
      | false =>
        rw [addLine_more empty last] at h
        by_cases full : lineCountLimit ≤ before.length + 1
        · rw [if_pos full] at h
          cases h
        · rw [if_neg full] at h
          have room : (text :: before).length < lineCountLimit := Nat.lt_of_not_le full
          obtain ⟨taken, lines, rfl, more, count, parsed⟩ := ih _ shorter room h rfl
          refine ⟨line ++ taken, text :: lines, by simp, .more raw empty last more, ?_, ?_⟩
          · simp only [List.length_cons] at count ⊢
            omega
          · simpa using parsed
  · rintro ⟨taken, lines, rfl, raw, count, parsed⟩
    induction raw generalizing before with
    | blank raw _ ih =>
      rw [List.append_assoc, consume_raw raw]
      exact ih hb count parsed
    | @more line later text lines raw nonempty more others ih =>
      have some : 0 < lines.length := List.length_pos_of_ne_nil others.ne_nil
      rw [List.length_cons] at count
      rw [List.append_assoc, consume_raw raw, addLine_more nonempty more, if_neg (by omega)]
      refine ih ?_ ?_ (by simpa using parsed)
      · rw [List.length_cons]
        omega
      · rw [List.length_cons]
        omega
    | last raw nonempty last =>
      rw [consume_raw raw, addLine_last nonempty last, parsed]
      rfl

end Reading

/-! ### Codes and texts -/

namespace Reply

variable {code line text : String} {value : Nat} {lines texts : List String}

theorem digitsValue_three (a b c : Char) : Text.digitsValue 0 [a, b, c] =
    (a.toNat - 48) * 100 + (b.toNat - 48) * 10 + (c.toNat - 48) := by
  simp only [Text.digitsValue, List.foldl_cons, List.foldl_nil]
  omega

theorem digit_range {c : Char} (h : c.isDigit) : 48 ≤ c.toNat ∧ c.toNat ≤ 57 :=
  Char.isDigit_iff_toNat.mp h

theorem IsCode.isDigit (h : IsCode code value) : ∀ d ∈ code.toList, d.isDigit := by
  cases h with
  | mk ha hb hc => simp [ha, hb, hc]

theorem IsCode.length_ofText (h : IsCode code value) : (Bytes.ofText code).length = 3 := by
  rw [Text.ofText_of_ascii fun d hd => Text.lt_of_isDigit (h.isDigit d hd), List.length_map]
  cases h
  rw [String.toList_ofList]
  rfl

/-- Three digits are told by their value. -/
theorem IsCode.unique {code' : String} (h : IsCode code value) (h' : IsCode code' value) :
    code = code' := by
  generalize hv : value = value' at h'
  cases h with
  | @mk a b c ha hb hc =>
  cases h' with
  | @mk a' b' c' ha' hb' hc' =>
  rw [digitsValue_three, digitsValue_three] at hv
  have ra := digit_range ha
  have rb := digit_range hb
  have rc := digit_range hc
  have ra' := digit_range ha'
  have rb' := digit_range hb'
  have rc' := digit_range hc'
  obtain rfl : a = a' := Char.toNat_inj.mp (by omega)
  obtain rfl : b = b' := Char.toNat_inj.mp (by omega)
  obtain rfl : c = c' := Char.toNat_inj.mp (by omega)
  rfl

theorem natOfDigits?_three {a b c : Char} : Text.natOfDigits? 1000 [a, b, c] = some value ↔
    (a.isDigit ∧ b.isDigit ∧ c.isDigit) ∧ Text.digitsValue 0 [a, b, c] = value := by
  by_cases digits : a.isDigit ∧ b.isDigit ∧ c.isDigit
  · obtain ⟨ha, hb, hc⟩ := digits
    have below : Text.digitsValue 0 [a, b, c] < 1000 := by
      have ra := digit_range ha
      have rb := digit_range hb
      have rc := digit_range hc
      rw [digitsValue_three]
      omega
    have valued : Text.natOfDigits? 1000 [a, b, c] = some (Text.digitsValue 0 [a, b, c]) := by
      rw [Text.natOfDigits?, if_neg (by simp [ha, hb, hc]), Text.digitsBelow?_eq (by decide)]
      simp [below]
    rw [valued, Option.some.injEq]
    simp [ha, hb, hc]
  · have none : Text.natOfDigits? 1000 [a, b, c] = none := by
      rw [Text.natOfDigits?, if_pos]
      cases ha : a.isDigit <;> cases hb : b.isDigit <;> simp_all
    simp [none, digits]

theorem splitCode_eq_ok_iff {rest : List Char} : splitCode line = .ok (value, rest) ↔
    ∃ code, IsCode code value ∧ line.toList = code.toList ++ rest := by
  constructor
  · intro h
    unfold splitCode at h
    split at h
    next a b c later hc =>
      split at h
      next found hv =>
        cases h
        obtain ⟨⟨ha, hb, hc'⟩, rfl⟩ := natOfDigits?_three.mp hv
        exact ⟨_, .mk ha hb hc', by simp [hc]⟩
      next => cases h
    next => cases h
  · rintro ⟨code, hc, split⟩
    cases hc with
    | @mk a b c ha hb hc =>
    have valued : Text.natOfDigits? 1000 [a, b, c] = some (Text.digitsValue 0 [a, b, c]) :=
      natOfDigits?_three.mpr ⟨⟨ha, hb, hc⟩, rfl⟩
    unfold splitCode
    rw [split, String.toList_ofList]
    simp only [List.cons_append, List.nil_append, valued]

inductive Worded (code : String) : String → String → Prop where
  | more (text : String) : Worded code (code ++ "-" ++ text) text
  | last (text : String) : Worded code (code ++ " " ++ text) text
  | bare : Worded code code ""

theorem textOfLine_eq_ok_iff : textOfLine value line = .ok text ↔
    ∃ code, IsCode code value ∧ Worded code line text := by
  constructor
  · intro h
    unfold textOfLine at h
    split at h
    next => cases h
    next found rest hs =>
      split at h
      next => cases h
      next same =>
        rw [ne_eq, not_not] at same
        subst same
        obtain ⟨code, hc, whole⟩ := splitCode_eq_ok_iff.mp hs
        refine ⟨code, hc, ?_⟩
        split at h
        next =>
          cases h
          rw [List.append_nil, String.toList_inj] at whole
          rw [whole]
          exact .bare
        next c cs =>
          split at h
          next separated =>
            cases h
            rcases Bool.or_eq_true _ _ ▸ separated with he | he
            · obtain rfl : line = code ++ " " ++ String.ofList cs :=
                String.toList_inj.mp (by simp [whole, of_decide_eq_true he])
              exact .last _
            · obtain rfl : line = code ++ "-" ++ String.ofList cs :=
                String.toList_inj.mp (by simp [whole, of_decide_eq_true he])
              exact .more _
          next => cases h
  · rintro ⟨code, hc, worded⟩
    have split (rest : List Char) (h : line.toList = code.toList ++ rest) :
        splitCode line = .ok (value, rest) := splitCode_eq_ok_iff.mpr ⟨code, hc, h⟩
    unfold textOfLine
    cases worded with
    | more => rw [split ('-' :: text.toList) (by simp)]; simp
    | last => rw [split (' ' :: text.toList) (by simp)]; simp
    | bare => rw [split [] (by simp)]; simp

theorem mapM_eq_ok_iff {f : String → Except Violation String} :
    lines.mapM f = .ok texts ↔ List.Forall₂ (fun line text => f line = .ok text) lines texts := by
  induction lines generalizing texts with
  | nil =>
    rw [List.mapM_nil, List.forall₂_nil_left_iff]
    exact ⟨fun h => (Except.ok.inj h).symm, fun h => h ▸ rfl⟩
  | cons line lines ih =>
    constructor
    · intro h
      rw [List.mapM_cons] at h
      cases first : f line with
      | error v =>
        rw [first] at h
        cases h
      | ok text =>
        cases others : lines.mapM f with
        | error v =>
          rw [first, others] at h
          cases h
        | ok later =>
          rw [first, others] at h
          cases h
          exact .cons first (ih.mp others)
    · intro h
      cases h with
      | cons first later =>
        rw [List.mapM_cons, first, ih.mpr later]
        rfl

theorem splitCode_of_textOfLine (h : textOfLine value line = .ok text) :
    ∃ rest, splitCode line = .ok (value, rest) := by
  unfold textOfLine at h
  split at h
  next => cases h
  next found rest hs =>
    split at h
    next => cases h
    next same =>
      rw [ne_eq, not_not] at same
      exact ⟨rest, same ▸ hs⟩

theorem ofLines_eq_ok_iff {reply : Reply} : ofLines lines = .ok reply ↔
    lines ≠ [] ∧
      List.Forall₂ (fun line text => textOfLine reply.code line = .ok text) lines reply.lines := by
  cases lines with
  | nil => simp [ofLines]
  | cons first others =>
    constructor
    · intro h
      unfold ofLines at h
      dsimp only at h
      split at h
      next => cases h
      next value rest hs =>
        cases parsed : (first :: others).mapM (textOfLine value) with
        | error v =>
          rw [parsed] at h
          cases h
        | ok texts =>
          rw [parsed] at h
          cases h
          exact ⟨by simp, mapM_eq_ok_iff.mp parsed⟩
    · rintro ⟨-, each⟩
      obtain ⟨rest, split⟩ : ∃ rest, splitCode first = .ok (reply.code, rest) := by
        generalize reply.lines = texts at each
        cases each with
        | cons first _ => exact splitCode_of_textOfLine first
      unfold ofLines
      dsimp only
      rw [split]
      dsimp only
      rw [mapM_eq_ok_iff.mpr each]
      rfl

/-! ### From lines to replies -/

variable {bs : Bytes}

theorem Worded.ne_empty (hc : IsCode code value) (h : Worded code line text) : line ≠ "" := by
  cases hc
  cases h <;> simp [← String.toList_inj]

theorem isLastLine_code (hc : IsCode code value) (s : String) :
    isLastLine (code ++ s) = ((Bytes.ofText s).head? != some (octet '-')) := by
  have three := hc.length_ofText
  unfold isLastLine
  rw [Text.Utf8.ofText_append, List.getElem?_append_right (Nat.le_of_eq three), three,
    List.head?_eq_getElem?]

theorem isLastLine_more (hc : IsCode code value) (text : String) :
    isLastLine (code ++ "-" ++ text) = false := by
  rw [String.append_assoc, isLastLine_code hc, Text.Utf8.ofText_append]
  rfl

theorem isLastLine_last (hc : IsCode code value) (text : String) :
    isLastLine (code ++ " " ++ text) = true := by
  rw [String.append_assoc, isLastLine_code hc, Text.Utf8.ofText_append]
  rfl

theorem isLastLine_bare (hc : IsCode code value) : isLastLine code = true := by
  rw [← String.append_empty (s := code), isLastLine_code hc]
  rfl

/-- The lines of a reply with their texts are lines up to the last one, each with its text. -/
theorem lines_iff (hc : IsCode code value) : Lines code bs texts ↔
    ∃ lines, Reading.RawLines bs lines ∧
      List.Forall₂ (fun line text => textOfLine value line = .ok text) lines texts := by
  have told {line text : String} (h : Worded code line text) : textOfLine value line = .ok text :=
    textOfLine_eq_ok_iff.mpr ⟨code, hc, h⟩
  constructor
  · intro h
    induction h with
    | blank raw _ ih =>
      obtain ⟨lines, others, each⟩ := ih
      exact ⟨lines, .blank raw others, each⟩
    | more raw _ ih =>
      obtain ⟨lines, others, each⟩ := ih
      exact ⟨_, .more raw (Worded.ne_empty hc (.more _)) (isLastLine_more hc _) others,
        .cons (told (.more _)) each⟩
    | last raw =>
      exact ⟨_, .last raw (Worded.ne_empty hc (.last _)) (isLastLine_last hc _),
        .cons (told (.last _)) .nil⟩
    | bare raw =>
      exact ⟨_, .last raw (Worded.ne_empty hc .bare) (isLastLine_bare hc),
        .cons (told .bare) .nil⟩
  · rintro ⟨lines, raw, each⟩
    have worded {line text : String} (h : textOfLine value line = .ok text) :
        Worded code line text := by
      obtain ⟨code', hc', worded⟩ := textOfLine_eq_ok_iff.mp h
      rwa [hc.unique hc']
    induction raw generalizing texts with
    | blank raw _ ih => exact .blank raw (ih each)
    | more raw _ more _ ih =>
      cases each with
      | cons first later =>
        cases worded first with
        | more => exact .more raw (ih later)
        | last => simp [isLastLine_last hc] at more
        | bare => simp [isLastLine_bare hc] at more
    | last raw _ last =>
      cases each with
      | cons first later =>
        cases later
        cases worded first with
        | more => simp [isLastLine_more hc] at last
        | last => exact .last raw
        | bare => exact .bare raw

/-- A reply is read from its own octets, and nothing else is. -/
theorem consume_eq_done_iff {reply : Reply} {rest : Bytes} :
    Reading.initial.consume bs = .done reply rest ↔
      ∃ taken, bs = taken ++ rest ∧ Written taken reply := by
  have first : ([] : List String).length < Reading.lineCountLimit := by decide
  unfold Reading.initial
  rw [Reading.consume_lines_iff first]
  constructor
  · rintro ⟨taken, lines, rfl, raw, count, parsed⟩
    obtain ⟨value, texts⟩ := reply
    obtain ⟨-, each⟩ := ofLines_eq_ok_iff.mp parsed
    obtain ⟨code, hc⟩ : ∃ code, IsCode code value := by
      obtain ⟨line, others, rfl⟩ := List.exists_cons_of_ne_nil raw.ne_nil
      cases each with
      | cons first _ =>
        obtain ⟨code, hc, -⟩ := textOfLine_eq_ok_iff.mp first
        exact ⟨code, hc⟩
    rw [List.length_nil, Nat.zero_add] at count
    exact ⟨taken, rfl, .mk hc ((lines_iff hc).mpr ⟨lines, raw, each⟩) (each.length_eq ▸ count)⟩
  · rintro ⟨taken, rfl, written⟩
    cases written with
    | mk hc lines count =>
    obtain ⟨raw, up, each⟩ := (lines_iff hc).mp lines
    refine ⟨taken, raw, rfl, up, ?_, ofLines_eq_ok_iff.mpr ⟨up.ne_nil, each⟩⟩
    rwa [List.length_nil, Nat.zero_add, each.length_eq]

/-! ### Rendering -/

theorem rawLine_line (hl : '\n' ∉ line.toList) (hr : line.toList.getLast? ≠ some '\r')
    (fits : (Bytes.ofText line).length + 2 ≤ Reading.lineLimit) :
    RawLine (Bytes.line line) line := by
  have cut : Bytes.line line = Bytes.ofText line ++ List.replicate 1 Bytes.cr ++ [Bytes.lf] := by
    simp [Bytes.line, Bytes.crlf]
  rw [cut]
  exact .mk 1 hl hr fits

theorem rawLine_coded (hc : IsCode code value) {separator : String}
    (hs : separator = "-" ∨ separator = " ") (ht : IsText text) :
    RawLine (Bytes.line (code ++ separator ++ text)) (code ++ separator ++ text) := by
  obtain ⟨d, rfl, other, ended, ascii⟩ : ∃ d : Char, separator = String.ofList [d] ∧
      d ≠ '\n' ∧ d ≠ '\r' ∧ d.toNat < 128 := by
    rcases hs with rfl | rfl
    · exact ⟨'-', rfl, by decide, by decide, by decide⟩
    · exact ⟨' ', rfl, by decide, by decide, by decide⟩
  refine rawLine_line ?_ ?_ ?_
  · have digits : '\n' ∉ code.toList := fun h => absurd (hc.isDigit _ h) (by decide)
    simp [digits, ht.noLineFeed, other.symm]
  · rw [String.toList_append, List.getLast?_append]
    cases last : text.toList.getLast? with
    | none => simpa using ended
    | some c =>
      have inner := ht.noReturn
      rwa [last] at inner
  · have one : (Bytes.ofText (String.ofList [d])).length = 1 := by
      rw [Text.ofText_of_ascii (by simpa using ascii)]
      simp
    have fits := ht.fits
    rw [Text.Utf8.ofText_append, Text.Utf8.ofText_append, List.length_append, List.length_append,
      hc.length_ofText, one]
    omega

theorem lines_render (hc : IsCode code value) (hn : texts ≠ []) (ht : ∀ text ∈ texts, IsText text) :
    Lines code (render code texts) texts := by
  induction texts with
  | nil => exact absurd rfl hn
  | cons text texts ih =>
    obtain ⟨first, others⟩ := List.forall_mem_cons.mp ht
    cases texts with
    | nil => exact .last (rawLine_coded hc (.inr rfl) first)
    | cons next later => exact .more (rawLine_coded hc (.inl rfl) first) (ih (by simp) others)

open Wire (Inbox)

theorem pull_of_written {taken buffer rest : Bytes} {pieces : List Bytes} {reply : Reply}
    (deadline now : Duration) (h : Written taken reply)
    (octets : buffer ++ pieces.flatten = taken ++ rest) :
    ∃ left later, (Inbox.ofPieces buffer pieces).pull Reading.framing deadline now =
      (.item reply, .ofPieces left later, now) ∧ left ++ later.flatten = rest :=
  Inbox.pull_of_consume Reading.seamless (consume_eq_done_iff.mpr ⟨taken, octets, h⟩)

/-- A reply is read as it is rendered, however its octets are cut, and what follows it stays. What
is read is a reply, line by line. -/
theorem reply_format (deadline now : Duration) :
    (∀ code value texts buffer pieces rest, IsCode code value → texts ≠ [] →
      texts.length ≤ Reading.lineCountLimit → (∀ text ∈ texts, IsText text) →
      buffer ++ pieces.flatten = render code texts ++ rest →
      ∃ left later, (Inbox.ofPieces buffer pieces).pull Reading.framing deadline now =
        (.item ⟨value, texts⟩, .ofPieces left later, now) ∧ left ++ later.flatten = rest) ∧
    ∀ i i' reply now', Inbox.pull Reading.framing deadline now i = (.item reply, i', now') →
      ∃ taken, i.content = taken ++ i'.content ∧ Written taken reply := by
  constructor
  · intro code value texts buffer pieces rest hc some count each octets
    exact pull_of_written deadline now (.mk hc (lines_render hc some each) count) octets
  · intro i i' reply now' h
    exact consume_eq_done_iff.mp (Inbox.consume_of_pull Reading.seamless h)

/-- Two lines, cut within a line end, and the beginning of the next reply. -/
theorem reply_format_two :
    ∃ left later, (Inbox.ofPieces [] [Bytes.ofText "250-é\r", Bytes.ofText "\n250 b\r\n22"]).pull
        Reading.framing 0 0 = (.item ⟨250, ["é", "b"]⟩, .ofPieces left later, 0) ∧
      left ++ later.flatten = Bytes.ofText "22" ∧
      ∃ taken, Bytes.ofText "250-é\r\n250 b\r\n22" = taken ++ (left ++ later.flatten) ∧
        Written taken ⟨250, ["é", "b"]⟩ := by
  have code : IsCode "250" 250 := .mk (a := '2') (b := '5') (c := '0') rfl rfl rfl
  have first : IsText "é" := ⟨by decide, by decide, by decide⟩
  have second : IsText "b" := ⟨by decide, by decide, by decide⟩
  obtain ⟨left, later, read, rest⟩ := (reply_format 0 0).1 "250" 250 ["é", "b"] []
    [Bytes.ofText "250-é\r", Bytes.ofText "\n250 b\r\n22"] (Bytes.ofText "22") code (by simp)
    (by decide) (List.forall_mem_cons.mpr ⟨first, List.forall_mem_singleton.mpr second⟩)
    (by decide +kernel)
  obtain ⟨taken, octets, written⟩ := (reply_format 0 0).2 _ _ _ _ read
  rw [Inbox.content_ofPieces, Inbox.content_ofPieces] at octets
  refine ⟨left, later, read, rest, taken, ?_, written⟩
  rw [← octets]
  decide +kernel

end Reply
end MailClient.Smtp
