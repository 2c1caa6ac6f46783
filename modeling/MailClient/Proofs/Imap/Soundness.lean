import Mathlib.Tactic.SplitIfs
import MailClient.Proofs.Imap.Grammar
import MailClient.Proofs.Imap.Scan

/-! What is read derives from the grammar. The reader works forward with a stack of open groups,
so a half-read response is described by what is still to come: `Awaits` says of each mode which
octets may follow and which response they complete. A step takes one octet off their front. -/
namespace MailClient.Imap.Parse

open Grammar

variable {spill : Nat} {l : Limits} {m : Mode} {n : Nest} {head : Head} {goal : Goal}
  {r : Response} {b : UInt8} {bs rest word digits : Bytes}

/-! ### What is still to come -/

def Tailed (spill : Nat) (head : Head) (bs : Bytes) (r : Response) : Prop :=
  ∃ code text, Tail spill bs code text ∧ r = head.response code text

def Judged (spill : Nat) (tag : Tag) (bs : Bytes) (r : Response) : Prop :=
  ∃ word rest status, bs = word ++ rest ∧ Word Octet.isAtom word rest ∧
    Status.ofKeyword? (Text.Utf8.text word) = some status ∧
    Tailed spill (.completion tag status) rest r

def Ends : Place → List Token → Bytes → Response → Prop
  | .data, ts, bs, r => bs = Bytes.crlf ∧ r = .untagged ⟨ts, none, none⟩
  | .code head, ts, bs, r => ∃ after rest text, bs = octet ']' :: after ∧ Gap after rest ∧
      Line rest text ∧ r = head.response (some ts) text

def Closes (spill : Nat) (place : Place) : List Group → List Token → Bytes → Response → Prop
  | [], ts, bs, r => Ends place ts bs r
  | g :: outer, ts, bs, r => ∃ inner more after, bs = g.closer :: (inner ++ after) ∧
      Tokens spill inner more ∧
      Closes spill place outer (g.before.reverse ++ .list ts :: more) after r

def Within (spill : Nat) (n : Nest) (bs : Bytes) (r : Response) : Prop :=
  ∃ inner more after, bs = inner ++ after ∧ Tokens spill inner more ∧
    Closes spill n.place n.groups (n.items.reverse ++ more) after r

def Fills (spill : Nat) (n : Nest) (missing : Nat) (stored bs : Bytes) (r : Response) : Prop :=
  ∃ more rest, bs = more ++ rest ∧ more.length = missing ∧
    Within spill (n.push (.literal (.store spill (stored.reverse ++ more)))) rest r

/-- Which octets lead from a mode to a response. -/
def Awaits (spill : Nat) : Mode → Bytes → Response → Prop
  | .start, bs, r => Written spill bs r
  | .plus, bs, r => Written spill (octet '+' :: bs) r
  | .star, bs, r => Written spill (octet '*' :: bs) r
  | .tag word, bs, r => word ≠ [] → (∀ b ∈ word, Octet.isTag b = true) →
      word.getLast? ≠ some (octet '*') → Written spill (word.reverse ++ bs) r
  | .verdict tag word, bs, r => (∀ b ∈ word, Octet.isAtom b = true) →
      Judged spill tag (word.reverse ++ bs) r
  | .untagged, bs, r => Written spill (octet '*' :: octet ' ' :: bs) r
  | .keyword word, bs, r => word ≠ [] → (∀ b ∈ word, Octet.isAtom b = true) →
      Written spill (octet '*' :: octet ' ' :: (word.reverse ++ bs)) r
  | .gap head, bs, r => Tailed spill head bs r
  | .code head, bs, r => Tailed spill head (octet ' ' :: bs) r
  | .codeGap head code, bs, r => ∃ rest text, Gap bs rest ∧ Line rest text ∧
      r = head.response (some code) text
  | .text goal word, bs, r => (∀ b ∈ word, Octet.isText b = true) →
      ∃ text, Line (word.reverse ++ bs) text ∧ r = goal.response text
  | .textEnd goal word, bs, r => bs = [Bytes.lf] ∧ r = goal.response (wordText word)
  | .tokens n, bs, r => Within spill n bs r
  | .tokensEnd n, bs, r => bs = [Bytes.lf] ∧ r = .untagged ⟨n.items.reverse, none, none⟩
  | .atom n word, bs, r => word ≠ [] → (∀ b ∈ word, Octet.isAtom b = true) →
      Within spill n (word.reverse ++ bs) r
  | .quoted n word, bs, r => (∀ b ∈ word, Octet.isText b = true) →
      Within spill n (octet '"' :: (escaped word.reverse ++ bs)) r
  | .escape n word, bs, r => (∀ b ∈ word, Octet.isText b = true) →
      Within spill n (octet '"' :: (escaped word.reverse ++ octet '\\' :: bs)) r
  | .size n digits, bs, r => (∀ b ∈ digits, Octet.isDigit b = true) →
      Within spill n (octet '\x7b' :: (digits.reverse ++ bs)) r
  | .brace n digits, bs, r => (∀ b ∈ digits, Octet.isDigit b = true) →
      Within spill n (octet '\x7b' :: (digits.reverse ++ octet '+' :: bs)) r
  | .sizeEnd n size, bs, r => ∃ rest, bs = Bytes.crlf ++ rest ∧ Fills spill n size [] rest r
  | .sizeLf n size, bs, r => ∃ rest, bs = Bytes.lf :: rest ∧ Fills spill n size [] rest r
  | .payload n _ missing stored, bs, r => Fills spill n (max missing 1) stored bs r

def Leads (spill : Nat) : Move → Bytes → Response → Prop
  | .run m, bs, r | .begin m, bs, r | .take m, bs, r | .newLine m, bs, r | .store m, bs, r
  | .stored _ m, bs, r => Awaits spill m bs r
  | .finish r', bs, r => bs = [] ∧ r = r'
  | .refuse _, _, _ | .reject _, _, _ => False

/-! ### Words and lines -/

theorem word_before {kind : UInt8 → Bool} {inner after : Bytes}
    (h : Word kind word (inner ++ after)) :
    Word kind word inner := by
  refine ⟨h.ne_nil, h.all, ?_⟩
  intro b hb
  apply h.stops
  rw [List.head?_append, Option.mem_def.mp hb]
  rfl

/-- A word that was read up to an octet of another kind. -/
theorem word_of_reversed {kind : UInt8 → Bool} (hw : word ≠ []) (ha : ∀ b ∈ word, kind b = true)
    (hb : kind b = false) : Word kind word.reverse (b :: bs) := by
  refine ⟨by simpa using hw, by simpa using ha, ?_⟩
  rintro c ⟨⟩
  exact hb

theorem reverse_append_cons : word.reverse ++ b :: bs = (b :: word).reverse ++ bs := by simp

theorem leads_lineEnd (h : Leads spill (lineEnd b m) bs r) :
    b = Bytes.cr ∧ Awaits spill m bs r := by
  unfold lineEnd at h
  split_ifs at h with hb
  · exact ⟨hb, h⟩
  · exact h.elim
  · exact h.elim

theorem leads_lineFeed {next : Move} (h : Leads spill (lineFeed b next) bs r) :
    b = Bytes.lf ∧ Leads spill next bs r := by
  unfold lineFeed at h
  split_ifs at h with hb
  · exact ⟨hb, h⟩
  · exact h.elim

theorem leads_expect {wanted : UInt8} (h : Leads spill (expect wanted b m) bs r) :
    b = wanted ∧ Awaits spill m bs r := by
  unfold expect at h
  split_ifs at h with hb
  · exact ⟨hb, h⟩
  · exact h.elim

theorem text_step (h : Leads spill (textStep goal word b) bs r) :
    Awaits spill (.text goal word) (b :: bs) r := by
  intro hw
  unfold textStep at h
  split_ifs at h with hb he
  · obtain ⟨rfl, rfl, rfl⟩ := leads_lineEnd h
    exact ⟨_, .mk (by simpa using hw), rfl⟩
  · rw [List.isEmpty_iff.mp he]
    exact h (by simpa using hb)
  · rw [reverse_append_cons]
    exact h (List.forall_mem_cons.mpr ⟨by simpa using hb, hw⟩)

theorem text_of_line (h : Awaits spill (.text goal []) bs r) :
    ∃ text, Line bs text ∧ r = goal.response text := h (by simp)

/-! ### Tokens -/

/-- A token in front of more tokens of its group. -/
theorem within_push {t : Token} {front : Bytes} (h : Within spill (n.push t) bs r)
    (ht : ∀ inner more after, bs = inner ++ after → Tokens spill inner more →
      Tokens spill (front ++ inner) (t :: more)) : Within spill n (front ++ bs) r := by
  obtain ⟨inner, more, after, rfl, hi, hc⟩ := h
  refine ⟨front ++ inner, t :: more, after, by simp, ht _ _ _ rfl hi, ?_⟩
  simpa [Nest.push] using hc

theorem within_atom (hw : Word Octet.isAtom word rest)
    (h : Within spill (n.push (.atom (Text.Utf8.text word))) rest r) :
    Within spill n (word ++ rest) r := by
  apply within_push h
  rintro inner more after rfl hi
  exact .atom (word_before hw) hi

theorem within_quoted {text : String} (hw : ∀ b ∈ word, Octet.isText b = true)
    (ht : Text.Utf8.text? word = some text) (h : Within spill (n.push (.quoted text)) rest r) :
    Within spill n (octet '"' :: (escaped word ++ octet '"' :: rest)) r := by
  have hq : Within spill n ((octet '"' :: escaped word ++ [octet '"']) ++ rest) r := by
    apply within_push h
    rintro inner more after rfl hi
    simpa using Tokens.quoted hw ht hi
  simpa using hq

theorem within_literal {header payload : Bytes} (ha : Announced header payload.length)
    (h : Within spill (n.push (.literal (.store spill payload))) rest r) :
    Within spill n (header ++ payload ++ rest) r := by
  apply within_push h
  rintro inner more after rfl hi
  exact .literal ha hi

theorem within_space (h : Within spill n bs r) : Within spill n (octet ' ' :: bs) r := by
  obtain ⟨inner, more, after, rfl, hi, hc⟩ := h
  exact ⟨octet ' ' :: inner, more, after, rfl, .space hi, hc⟩

/-- A group is opened and closed again before the tokens around it go on. -/
theorem within_group {opener closer : UInt8}
    (hg : ∀ {inner items bs ts}, Tokens spill inner items → Tokens spill bs ts →
      Tokens spill (opener :: inner ++ closer :: bs) (.list items :: ts))
    (h : Leads spill (openStep n closer) bs r) : Within spill n (opener :: bs) r := by
  obtain ⟨inner, items, after, rfl, hi, inner', more, after', rfl, hm, hc⟩ := h
  exact ⟨opener :: inner ++ closer :: inner', .list items :: more, after', by simp, hg hi hm, hc⟩

/-- No more tokens in the innermost group. -/
theorem within_of_closes (h : Closes spill n.place n.groups n.items.reverse bs r) :
    Within spill n bs r := ⟨[], [], bs, rfl, .nil, by simpa using h⟩

theorem close_step (h : Leads spill (closeStep n b) bs r) : Within spill n (b :: bs) r := by
  apply within_of_closes
  obtain ⟨place, groups, items⟩ := n
  cases groups with
  | nil =>
    cases place with
    | data => exact h.elim
    | code head =>
      simp only [closeStep] at h
      split_ifs at h with hb
      · obtain ⟨rest, text, hg, hl, rfl⟩ := h
        exact ⟨bs, rest, text, by rw [hb], hg, hl, rfl⟩
      · exact h.elim
  | cons g outer =>
    simp only [closeStep] at h
    split_ifs at h with hb
    · obtain ⟨inner, more, after, rfl, hi, hc⟩ := h
      exact ⟨inner, more, after, by rw [hb], hi, by simpa using hc⟩
    · exact h.elim

theorem tokensEnd_step (h : Leads spill (tokensEndStep n b) bs r) : Within spill n (b :: bs) r := by
  apply within_of_closes
  obtain ⟨place, groups, items⟩ := n
  cases groups with
  | cons => exact h.elim
  | nil =>
    cases place with
    | code => exact h.elim
    | data =>
      obtain ⟨rfl, rfl, rfl⟩ := leads_lineEnd h
      exact ⟨rfl, rfl⟩

/-! ### Quoted strings and literals -/

theorem quoted_step (h : Leads spill (quotedStep n word b) bs r) :
    Awaits spill (.quoted n word) (b :: bs) r := by
  intro hw
  unfold quotedStep at h
  split_ifs at h with hq he hl
  · split at h
    next text ht =>
      rw [hq]
      exact within_quoted (by simpa using hw) ht h
    · exact h.elim
  · rw [he]
    exact h hw
  · exact h.elim
  · have hb : escaped (b :: word).reverse = escaped word.reverse ++ [b] := by
      rw [List.reverse_cons, escaped_append, escaped, if_neg (by simp [hq, he]), escaped]
    rw [List.append_cons, ← hb]
    exact h (List.forall_mem_cons.mpr ⟨by simpa [Octet.isText] using hl, hw⟩)

theorem escape_step (h : Leads spill (escapeStep n word b) bs r) :
    Awaits spill (.escape n word) (b :: bs) r := by
  intro hw
  unfold escapeStep at h
  split_ifs at h with hb
  · have he : escaped (b :: word).reverse = escaped word.reverse ++ [octet '\\', b] := by
      rw [List.reverse_cons, escaped_append, escaped, if_pos hb, escaped]
    rw [List.append_cons, List.append_cons, List.append_assoc (escaped _), List.singleton_append,
      ← he]
    refine h (List.forall_mem_cons.mpr ⟨?_, hw⟩)
    rw [Bool.or_eq_true, decide_eq_true_eq, decide_eq_true_eq] at hb
    rcases hb with rfl | rfl <;> decide
  · exact h.elim

theorem sizeOf?_eq_some {size : Nat} (h : sizeOf? digits = some size) :
    digits ≠ [] ∧ Text.digitsValue 0 (digits.reverse.map latin1) = size ∧ size < Nat.pow 2 64 := by
  unfold sizeOf? Text.natOfDigits? at h
  split_ifs at h with hd
  rw [Text.digitsBelow?_eq (by decide), Option.filter_eq_some_iff] at h
  obtain ⟨hv, hs⟩ := h
  refine ⟨?_, Option.some.inj hv, by simpa using hs⟩
  rintro rfl
  exact hd rfl

/-- The end of an announcement, after its digits and perhaps a plus sign. -/
theorem brace_step {plus : Bytes} (hp : plus = [] ∨ plus = [octet '+'])
    (hd : ∀ b ∈ digits, Octet.isDigit b = true) (h : Leads spill (braceStep n digits b) bs r) :
    Within spill n (octet '\x7b' :: (digits.reverse ++ (plus ++ b :: bs))) r := by
  unfold braceStep at h
  split_ifs at h with hb
  · split at h
    next size hs =>
      obtain ⟨rest, rfl, payload, rest, rfl, rfl, h⟩ := h
      obtain ⟨hn, hv, hl⟩ := sizeOf?_eq_some hs
      have ha : Announced _ payload.length :=
        .mk (List.reverse_ne_nil_iff.mpr hn) (by simpa using hd) hp hv hl
      rw [hb]
      simpa using within_literal ha h
    · exact h.elim
  · exact h.elim

theorem size_step (h : Leads spill (sizeStep n digits b) bs r) :
    Awaits spill (.size n digits) (b :: bs) r := by
  intro hd
  unfold sizeStep at h
  split_ifs at h with hb hp
  · rw [reverse_append_cons]
    exact h (List.forall_mem_cons.mpr ⟨hb, hd⟩)
  · rw [hp]
    exact h hd
  · exact brace_step (.inl rfl) hd h

theorem payload_step {size missing : Nat} {stored : Bytes}
    (h : Leads l.spill (payloadStep l n size missing stored b) bs r) :
    Fills l.spill n (max missing 1) stored (b :: bs) r := by
  unfold payloadStep at h
  split_ifs at h with hm
  · refine ⟨[b], bs, rfl, ?_, ?_⟩
    · rw [List.length_singleton]
      omega
    · rw [← List.reverse_cons]
      exact h
  · obtain ⟨more, rest, rfl, hlen, h⟩ := h
    refine ⟨b :: more, rest, rfl, ?_, ?_⟩
    · rw [List.length_cons, hlen]
      omega
    · rwa [reverse_append_cons]

theorem tokens_step (h : Leads spill (tokensStep n b) bs r) : Within spill n (b :: bs) r := by
  unfold tokensStep at h
  split_ifs at h with hs hl hp hb hc hq hz ha
  · exact hs ▸ within_space h
  · exact tokensEnd_step h
  · exact hp ▸ within_group .parentheses h
  · exact hb ▸ within_group .brackets h
  · exact close_step h
  · exact hq ▸ h (by simp)
  · exact hz ▸ h (by simp)
  · exact h (by simp) (by simpa using ha)
  · exact h.elim

/-! ### Fronts of responses -/

/-- The code or the text of a status response, after a space or none. -/
theorem code_step {front : Bytes} (hg : Gap front (b :: bs))
    (h : Leads spill (codeStep head b) bs r) : Tailed spill head front r := by
  unfold codeStep at h
  split_ifs at h with hb
  · obtain ⟨inner, items, _, rfl, hi, after, rest, text, rfl, hgap, hl, rfl⟩ := h
    exact ⟨some items, text, .code (by simpa [hb] using hg) hi hgap hl, rfl⟩
  · obtain ⟨text, hl, rfl⟩ := text_of_line (text_step h)
    exact ⟨none, text, .plain hg (by simpa using hb) hl, rfl⟩

theorem gap_step (h : Leads spill (gapStep head b) bs r) : Tailed spill head (b :: bs) r := by
  unfold gapStep at h
  split_ifs at h with hb
  · exact hb ▸ h
  · exact code_step (.none (by simpa using hb)) h

theorem codeGap_step {code : List Token} (h : Leads spill (codeGapStep head code b) bs r) :
    Awaits spill (.codeGap head code) (b :: bs) r := by
  unfold codeGapStep at h
  dsimp only at h
  split_ifs at h with hb
  · have ht : Awaits spill (.text (.status head (some code)) []) bs r := h
    obtain ⟨text, hl, rfl⟩ := text_of_line ht
    exact ⟨bs, text, hb ▸ .space bs, hl, rfl⟩
  · obtain ⟨text, hl, rfl⟩ := text_of_line (text_step h)
    exact ⟨b :: bs, text, .none (by simpa using hb), hl, rfl⟩

theorem plus_step (h : Leads spill (if b = octet ' ' then .take (.text .continuation [])
    else textStep .continuation [] b) bs r) : Awaits spill .plus (b :: bs) r := by
  split_ifs at h with hb
  · have ht : Awaits spill (.text .continuation []) bs r := h
    obtain ⟨text, hl, rfl⟩ := text_of_line ht
    exact .continuation (hb ▸ .space bs) hl
  · obtain ⟨text, hl, rfl⟩ := text_of_line (text_step h)
    exact .continuation (.none (by simpa using hb)) hl

/-- Tokens after the asterisk make data unless their first word is a status. -/
theorem written_data {body : Bytes} (h : Within spill ⟨.data, [], []⟩ body r)
    (hw : Status.ofKeyword? (Text.Utf8.text (body.takeWhile Octet.isAtom)) = none) :
    Written spill (octet '*' :: octet ' ' :: body) r := by
  obtain ⟨inner, ts, _, rfl, hi, rfl, rfl⟩ := h
  have hs : (inner ++ Bytes.crlf).takeWhile Octet.isAtom = inner.takeWhile Octet.isAtom := by
    rw [List.takeWhile_append]
    split_ifs with hl
    · rw [(List.takeWhile_prefix _).eq_of_length hl]
      exact List.append_nil inner
    · rfl
  rw [hs] at hw
  exact .data hi hw

theorem keyword_step (h : Leads spill (step l (.keyword word) b) bs r) :
    Awaits spill (.keyword word) (b :: bs) r := by
  intro hn ha
  simp only [step] at h
  by_cases hb : Octet.isAtom b = true
  · rw [if_pos hb] at h
    rw [reverse_append_cons]
    exact h (by simp) (List.forall_mem_cons.mpr ⟨hb, ha⟩)
  · rw [if_neg hb] at h
    have hw : Word Octet.isAtom word.reverse (b :: bs) := word_of_reversed hn ha (by simpa using hb)
    unfold noticeOf? at h
    by_cases hk : (Status.ofKeyword? (wordText word)).isSome
    · rw [if_pos hk] at h
      obtain ⟨code, text, ht, rfl⟩ := gap_step h
      exact .notice hw hk ht
    · rw [if_neg hk] at h
      apply written_data (within_atom hw (tokens_step h))
      rw [List.takeWhile_append_of_pos (by simpa using ha), List.takeWhile_cons_of_neg hb]
      simpa [wordText] using hk

theorem verdict_step {tag : Tag} (h : Leads spill (step l (.verdict tag word) b) bs r) :
    Awaits spill (.verdict tag word) (b :: bs) r := by
  intro ha
  simp only [step] at h
  by_cases hb : Octet.isAtom b = true
  · rw [if_pos hb] at h
    rw [reverse_append_cons]
    exact h (List.forall_mem_cons.mpr ⟨hb, ha⟩)
  · rw [if_neg hb] at h
    unfold verdictOf at h
    by_cases hn : word.isEmpty
    · rw [if_pos hn] at h
      exact h.elim
    · rw [if_neg hn] at h
      rw [List.isEmpty_iff] at hn
      cases hk : Status.ofKeyword? (wordText word) with
      | none =>
        rw [hk] at h
        exact h.elim
      | some status =>
        rw [hk] at h
        exact ⟨_, _, status, rfl, word_of_reversed hn ha (by simpa using hb), hk, gap_step h⟩

theorem tag_step (ha : ∀ b ∈ word, Octet.isTag b = true)
    (hs : (b :: word).getLast? ≠ some (octet '*')) (h : Leads spill (tagStep word b) bs r) :
    Written spill (word.reverse ++ b :: bs) r := by
  unfold tagStep at h
  split_ifs at h with hb hn
  · rw [reverse_append_cons]
    exact h (by simp) (List.forall_mem_cons.mpr ⟨hb, ha⟩) hs
  · exact h.elim
  · rw [List.isEmpty_iff] at hn
    obtain ⟨rfl, hj⟩ := leads_expect h
    obtain ⟨word', rest, status, rfl, hw, hk, code, text, ht, rfl⟩ := hj (by simp)
    have htag : Word Octet.isTag word.reverse [octet ' '] := word_of_reversed hn ha (by decide)
    rw [List.getLast?_cons, Option.getD_of_ne_none (by simpa using hn)] at hs
    have hc := Written.completion htag (by simpa using hs) hw hk ht
    rw [List.append_assoc, List.cons_append] at hc
    exact hc

/-! ### From a read to a derivation -/

/-- Whatever a step makes of an octet, the octet belongs in front of what follows. -/
theorem awaits_of_leads (h : Leads l.spill (step l m b) bs r) : Awaits l.spill m (b :: bs) r := by
  cases m with
  | start =>
    simp only [step] at h
    split_ifs at h with hp hs
    · exact hp ▸ h
    · exact hs ▸ h
    · exact tag_step (by simp) (by simpa using hs) h
  | plus => exact plus_step h
  | star =>
    obtain ⟨rfl, hu⟩ := leads_expect h
    exact hu
  | tag word =>
    intro hn ha hs
    refine tag_step ha ?_ h
    obtain ⟨c, cs, rfl⟩ := List.exists_cons_of_ne_nil hn
    exact hs
  | verdict tag word => exact verdict_step h
  | untagged =>
    simp only [step] at h
    split_ifs at h with hb
    · exact h (by simp) (by simpa using hb)
    · apply written_data (tokens_step h)
      rw [List.takeWhile_cons_of_neg hb]
      decide +kernel
  | keyword word => exact keyword_step h
  | gap head => exact gap_step h
  | code head => exact code_step (.space _) h
  | codeGap head code => exact codeGap_step h
  | text goal word => exact text_step h
  | textEnd goal word =>
    obtain ⟨rfl, rfl, rfl⟩ := leads_lineFeed h
    exact ⟨rfl, rfl⟩
  | tokens n => exact tokens_step h
  | tokensEnd n =>
    obtain ⟨rfl, rfl, rfl⟩ := leads_lineFeed h
    exact ⟨rfl, rfl⟩
  | atom n word =>
    intro hw ha
    simp only [step] at h
    split_ifs at h with hb
    · rw [reverse_append_cons]
      exact h (by simp) (List.forall_mem_cons.mpr ⟨hb, ha⟩)
    · exact within_atom (word_of_reversed hw ha (by simpa using hb)) (tokens_step h)
  | quoted n word => exact quoted_step h
  | escape n word => exact escape_step h
  | size n digits => exact size_step h
  | brace n digits => exact fun hd => brace_step (.inr rfl) hd h
  | sizeEnd n size =>
    obtain ⟨rfl, rest, rfl, hf⟩ := leads_lineEnd h
    exact ⟨rest, rfl, hf⟩
  | sizeLf n size =>
    obtain ⟨rfl, hf⟩ := leads_lineFeed h
    refine ⟨bs, rfl, ?_⟩
    by_cases hs : size = 0
    · rw [if_pos hs] at hf
      exact ⟨[], bs, rfl, hs.symm, hf⟩
    · rw [if_neg hs] at hf
      rw [← Nat.max_eq_left (Nat.one_le_iff_ne_zero.mpr hs)]
      exact hf
  | payload n size missing stored => exact payload_step h

theorem awaits_of_scan {length : Nat} (h : scan l m length bs = some (r, rest)) :
    ∃ taken, bs = taken ++ rest ∧ Awaits l.spill m taken r := by
  induction bs generalizing m length with
  | nil => simp [scan] at h
  | cons b bs ih =>
    have leads : ∃ taken, bs = taken ++ rest ∧ Leads l.spill (step l m b) taken r := by
      rw [scan] at h
      generalize step l m b = move at h ⊢
      cases move with
      | finish r' =>
        dsimp only at h
        split_ifs at h
        cases h
        exact ⟨[], rfl, rfl, rfl⟩
      | refuse | reject => cases h
      | _ =>
        dsimp only at h
        split_ifs at h
        exact ih h
    obtain ⟨taken, rfl, ht⟩ := leads
    exact ⟨b :: taken, rfl, awaits_of_leads ht⟩

variable {deadline now now' : Duration} {i i' : Wire.Inbox}

theorem atEnd_of_begun {s : State} (h : s.mode ≠ .start) :
    ∃ position why, atEnd s = .malformed position why := by
  have hp : s.isPartial = true := by
    unfold State.isPartial
    split
    next hm => exact absurd hm h
    · rfl
  exact ⟨s.position, ended s.mode, if_pos hp⟩

/-- A response cut short, anywhere but before its first octet, is malformed. -/
theorem broken_of_short {buffer missing : Bytes} {pieces : List Bytes} (hm : missing ≠ [])
    (h : consume l initial (buffer ++ pieces.flatten ++ missing) = .done r []) :
    ∃ e, ((Wire.Inbox.ofPieces buffer pieces).pull (framing l) deadline now).1 = .broken e ∧
      if buffer ++ pieces.flatten = [] then e = .closed
      else ∃ position why, e = .malformed position why := by
  obtain ⟨s, hp, hs⟩ := Wire.Inbox.pull_of_short seamless deadline now hm h
  refine ⟨_, congrArg Prod.fst hp, ?_⟩
  rcases hs with ⟨he, rfl⟩ | hs
  · rw [if_pos he]
    rfl
  · split_ifs with he
    · rw [he] at hs
      cases hs
      rfl
    · exact atEnd_of_begun (mode_ne_start hs (.inl he))

/-- A response that is read derives from the octets it took. It is the same whatever octets come
after them, and there is no response in fewer of them. -/
theorem written_of_pull (h : i.pull (framing l) deadline now = (.item r, i', now')) :
    ∃ taken, i.content = taken ++ i'.content ∧ Written l.spill taken r ∧
      (∀ buffer pieces other, buffer ++ pieces.flatten = taken ++ other →
        ∃ j, (Wire.Inbox.ofPieces buffer pieces).pull (framing l) deadline now = (.item r, j, now) ∧
          j.content = other) ∧
      ∀ buffer pieces missing, buffer ++ pieces.flatten ++ missing = taken → missing ≠ [] →
        ∃ e, ((Wire.Inbox.ofPieces buffer pieces).pull (framing l) deadline now).1 = .broken e ∧
          if buffer ++ pieces.flatten = [] then e = .closed
          else ∃ position why, e = .malformed position why := by
  have hc : consume l initial i.content = .done r i'.content :=
    Wire.Inbox.consume_of_pull seamless h
  obtain ⟨taken, ht, hw⟩ := awaits_of_scan (consume_eq_done_iff.mp hc)
  rw [ht] at hc
  have exact : consume l initial taken = .done r [] := seamless.exact hc
  refine ⟨taken, ht, hw, ?_, ?_⟩
  · intro buffer pieces other ho
    have hd : consume l initial (buffer ++ pieces.flatten) = .done r other := by
      rw [ho]
      exact seamless.done other exact
    obtain ⟨left, later, hp, hl⟩ := Wire.Inbox.pull_of_consume seamless hd
    exact ⟨_, hp, (Wire.Inbox.content_ofPieces left later).trans hl⟩
  · rintro buffer pieces missing rfl hm
    exact broken_of_short hm exact

theorem written_of_pull_groups :
    (Wire.Inbox.ofPieces [] [Bytes.ofText "* ([a]", Bytes.ofText " \"b\")\r",
        Bytes.ofText "\n*"]).pull (framing ⟨80, 80⟩) 0 0 =
      (.item (.untagged ⟨[.list [.list [.atom "a"], .quoted "b"]], none, none⟩),
        ⟨[octet '*'], []⟩, 0) ∧
    ∃ taken, Bytes.ofText "* ([a] \"b\")\r\n*" = taken ++ [octet '*'] ∧
      Written 80 taken (.untagged ⟨[.list [.list [.atom "a"], .quoted "b"]], none, none⟩) := by
  have h : (Wire.Inbox.ofPieces [] [Bytes.ofText "* ([a]", Bytes.ofText " \"b\")\r",
      Bytes.ofText "\n*"]).pull (framing ⟨80, 80⟩) 0 0 =
        (.item (.untagged ⟨[.list [.list [.atom "a"], .quoted "b"]], none, none⟩),
          ⟨[octet '*'], []⟩, 0) := by
    with_unfolding_all rfl
  obtain ⟨taken, hc, hw, -⟩ := written_of_pull h
  exact ⟨h, taken, hc, hw⟩

end MailClient.Imap.Parse
