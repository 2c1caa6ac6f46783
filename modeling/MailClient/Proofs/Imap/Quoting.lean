import MailClient.Proofs.Imap.CommandReader
import MailClient.Proofs.Imap.Scan
import MailClient.Proofs.Text.Words

/-! Quoted strings, as they are written and as they are read. What the parser takes for a quoted
string is followed octet by octet, from where it comes inside of one to where it comes out with a
text. These octets are what is written for the text, so there is one spelling only, and every
quoted string of a response has been read from its own. -/
namespace MailClient.Imap

def IsQuotation (v : String) (bs : Bytes) : Prop :=
  ∃ text, Argument.quoted v = .plain text ∧ bs = Bytes.ofText text

/-- The texts of the quoted strings in a token, in the order in which they stand. -/
def Token.quotations : Token → List String
  | .atom _ => []
  | .quoted text => [text]
  | .literal _ => []
  | .list items => items.flatMap quotations

def quotationsOf (ts : List Token) : List String := ts.flatMap Token.quotations

def Response.quotations : Response → List String
  | .tagged _ _ code _ => quotationsOf (code.getD [])
  | .untagged u => quotationsOf (u.tokens ++ u.code.getD [])
  | .continuation _ => []

namespace Parse

variable {l : Limits} {m m' : Mode} {n : Nest} {s s' s₁ : State} {b : UInt8} {v : String}
  {r : Response} {word cs bs rest : Bytes}

/-! ### One octet at a time -/

theorem not_more_of_tooLong (hs : l.line < s.line) : consume l s bs ≠ .more s' := by
  induction bs generalizing s with
  | nil => simp [consume, State.tooLong, hs]
  | cons b bs ih =>
    rw [consume]
    generalize step l s.mode b = move
    cases move with
    | run mode =>
      simp only [Move.endsRun, Move.isMeasured, Bool.false_and, Bool.false_eq_true, if_false]
      exact ih (Nat.lt_succ_of_lt hs)
    | _ => simp [Move.endsRun, State.tooLong, hs]

/-- What is read at once can be read octet by octet. -/
theorem consume_cons_eq_more_iff : consume l s (b :: bs) = .more s' ↔
    ∃ s₁, consume l s [b] = .more s₁ ∧ consume l s₁ bs = .more s' := by
  constructor
  · intro h
    rw [consume] at h
    simp only [consume]
    generalize step l s.mode b = move at h ⊢
    split at h
    · cases h
    next hr =>
      split at h
      · cases h
      next hm =>
        rw [if_neg hr, if_neg hm]
        have short {s₁ : State} (h : consume l s₁ bs = .more s') : ¬ s₁.tooLong l = true := by
          intro ht
          exact not_more_of_tooLong (of_decide_eq_true ht) h
        cases move with
        | finish | refuse | reject => cases h
        | _ => exact ⟨_, if_neg (short h), h⟩
  · rintro ⟨s₁, hb, hbs⟩
    rw [← List.singleton_append, consume_more hb, hbs]

theorem next?_of_consume (h : consume l s [b] = .more s') :
    (step l s.mode b).next? = some s'.mode := by
  rw [consume] at h
  generalize step l s.mode b = move at h ⊢
  split at h
  · cases h
  · split at h
    · cases h
    · cases move with
      | finish | refuse | reject => cases h
      | _ =>
        dsimp only [consume] at h
        split at h
        · cases h
        · cases h
          rfl

/-- Taking an octet, the parser goes one octet further in the line. -/
theorem consume_eq_more_of_take (hm : step l s.mode b = .take m') :
    consume l s [b] = .more s' ↔ s.line < l.line ∧ s' = s.advance m' := by
  simp only [consume, hm, Move.endsRun, Move.isMeasured, Bool.true_and, State.tooLong,
    State.advance, decide_eq_true_eq]
  by_cases hs : s.line < l.line
  · have here : ¬ l.line < s.line := by omega
    have after : ¬ l.line < s.line + 1 := by omega
    simp [hs, here, after, eq_comm]
  · have after : l.line < s.line + 1 := by omega
    simp only [hs, after, false_and, iff_false]
    split <;> simp

/-- What is read ends with an octet that completes the response. -/
theorem finish_of_consume (h : consume l s bs = .done r rest) :
    ∃ front s' b, bs = front ++ b :: rest ∧ consume l s front = .more s' ∧
      step l s'.mode b = .finish r := by
  induction bs generalizing s with
  | nil =>
    rw [consume] at h
    split at h <;> cases h
  | cons b bs ih =>
    rw [consume] at h
    generalize hm : step l s.mode b = move at h
    split at h
    · cases h
    next hr =>
      split at h
      · cases h
      next hl =>
        have further {s₁ : State} (hc : consume l s₁ bs = .done r rest)
            (hs : ∀ front, consume l s (b :: front) = consume l s₁ front) :
            ∃ front s' last, b :: bs = front ++ last :: rest ∧ consume l s front = .more s' ∧
              step l s'.mode last = .finish r := by
          obtain ⟨front, s', last, rfl, hf, hlast⟩ := ih hc
          exact ⟨b :: front, s', last, rfl, (hs front).trans hf, hlast⟩
        cases move with
        | finish r' =>
          cases h
          refine ⟨[], s, b, rfl, ?_, hm⟩
          rw [consume, if_neg (by simpa [Move.endsRun] using hr)]
        | refuse | reject => cases h
        | _ => exact further h fun front => by rw [consume, hm, if_neg hr, if_neg hl]

/-! ### Inside a quoted string -/

def Mode.quoting? : Mode → Option Nest
  | .quoted n _ | .escape n _ => some n
  | _ => none

/-- Octets that keep the parser inside a quoted string, up to the one that ends it. -/
inductive EndsQuoted (l : Limits) (n : Nest) (v : String) : State → Bytes → State → Prop where
  | last {s s' : State} {b : UInt8} : consume l s [b] = .more s' →
      s'.mode = .tokens (n.push (.quoted v)) → EndsQuoted l n v s [b] s'
  | cons {s s₁ s' : State} {b : UInt8} {bs : Bytes} : consume l s [b] = .more s₁ →
      s₁.mode.quoting? = some n → EndsQuoted l n v s₁ bs s' → EndsQuoted l n v s (b :: bs) s'

/-- What the parser takes for a quoted string: with the first octet it comes inside of one, and
with the last it has the text among its tokens. -/
def ReadsQuoted (l : Limits) (n : Nest) (v : String) (s : State) (bs : Bytes) (s' : State) : Prop :=
  s.mode.quoting? = none ∧ ∃ b inner s₁, bs = b :: inner ∧ consume l s [b] = .more s₁ ∧
    s₁.mode.quoting? = some n ∧ EndsQuoted l n v s₁ inner s'

/-! ### Outside of quoted strings -/

def Nest.quotations (n : Nest) : List String :=
  quotationsOf (n.groups.reverse.flatMap fun g => g.before.reverse) ++ quotationsOf n.items.reverse

def Goal.quotations : Goal → List String
  | .continuation => []
  | .status _ code => quotationsOf (code.getD [])

def Mode.quotations : Mode → List String
  | .tokens n | .atom n _ | .quoted n _ | .escape n _ | .size n _ | .brace n _ | .sizeEnd n _
  | .sizeLf n _ | .payload n _ _ _ => n.quotations
  | .tokensEnd n => quotationsOf n.items.reverse
  | .codeGap _ items => quotationsOf items
  | .text goal _ | .textEnd goal _ => goal.quotations
  | _ => []

theorem quotations_push (n : Nest) (t : Token) :
    (n.push t).quotations = n.quotations ++ t.quotations := by
  simp [Nest.quotations, Nest.push, quotationsOf]

def Mode.IsOutside (texts : List String) (m : Mode) : Prop :=
  m.quoting? = none ∧ m.quotations = texts

theorem next?_lineEnd (h : (lineEnd b m).next? = some m') : m' = m := by
  unfold lineEnd at h
  split_ifs at h <;> cases h
  rfl

theorem next?_expect {wanted : UInt8} (h : (expect wanted b m).next? = some m') : m' = m := by
  unfold expect at h
  split_ifs at h <;> cases h
  rfl

theorem next?_lineFeed {move : Move} (h : (lineFeed b move).next? = some m') :
    move.next? = some m' := by
  unfold lineFeed at h
  split_ifs at h
  · exact h
  · cases h

theorem outside_textStep {goal : Goal} (h : (textStep goal word b).next? = some m') :
    m'.IsOutside goal.quotations := by
  unfold textStep at h
  split_ifs at h
  · rw [next?_lineEnd h]
    exact ⟨rfl, rfl⟩
  · cases h
    exact ⟨rfl, rfl⟩
  · cases h
    exact ⟨rfl, rfl⟩

theorem outside_codeStep {head : Head} (h : (codeStep head b).next? = some m') :
    m'.IsOutside [] := by
  unfold codeStep at h
  split_ifs at h
  · cases h
    exact ⟨rfl, rfl⟩
  · exact outside_textStep h

theorem outside_gapStep {head : Head} (h : (gapStep head b).next? = some m') :
    m'.IsOutside [] := by
  unfold gapStep at h
  split_ifs at h
  · cases h
    exact ⟨rfl, rfl⟩
  · exact outside_codeStep h

theorem outside_codeGapStep {head : Head} {code : List Token}
    (h : (codeGapStep head code b).next? = some m') : m'.IsOutside (quotationsOf code) := by
  unfold codeGapStep at h
  dsimp only at h
  split_ifs at h
  · cases h
    exact ⟨rfl, rfl⟩
  · exact outside_textStep h

theorem outside_closeStep (h : (closeStep n b).next? = some m') : m'.IsOutside n.quotations := by
  unfold closeStep at h
  split at h
  next g outer place hg =>
    split_ifs at h
    · cases h
      refine ⟨rfl, ?_⟩
      simp [Mode.quotations, Nest.quotations, quotationsOf, hg, Token.quotations]
    · cases h
  next hg hp =>
    split_ifs at h
    · cases h
      refine ⟨rfl, ?_⟩
      simp [Mode.quotations, Nest.quotations, quotationsOf, hg]
    · cases h
  · cases h

theorem outside_openStep {closer : UInt8} (h : (openStep n closer).next? = some m') :
    m'.IsOutside n.quotations := by
  cases h
  refine ⟨rfl, ?_⟩
  simp [Mode.quotations, Nest.quotations, quotationsOf]

theorem outside_tokensEndStep (h : (tokensEndStep n b).next? = some m') :
    m'.IsOutside n.quotations := by
  unfold tokensEndStep at h
  split at h
  · cases h
  · cases h
  next hg hp =>
    rw [next?_lineEnd h]
    exact ⟨rfl, by simp [Mode.quotations, Nest.quotations, hg, quotationsOf]⟩

theorem outside_tokensStep (h : (tokensStep n b).next? = some m') :
    m'.IsOutside n.quotations ∨ b = octet '"' ∧ m' = .quoted n [] := by
  unfold tokensStep at h
  split_ifs at h with space lineEnd paren bracket closer quote
  · cases h
    exact .inl ⟨rfl, rfl⟩
  · exact .inl (outside_tokensEndStep h)
  · exact .inl (outside_openStep h)
  · exact .inl (outside_openStep h)
  · exact .inl (outside_closeStep h)
  · cases h
    exact .inr ⟨quote, rfl⟩
  · cases h
    exact .inl ⟨rfl, rfl⟩
  · cases h
    exact .inl ⟨rfl, rfl⟩
  · cases h

theorem outside_braceStep {digits : Bytes} (h : (braceStep n digits b).next? = some m') :
    m'.IsOutside n.quotations := by
  unfold braceStep at h
  split_ifs at h
  · split at h <;> cases h
    exact ⟨rfl, rfl⟩
  · cases h

theorem outside_tagStep (h : (tagStep word b).next? = some m') : m'.IsOutside [] := by
  unfold tagStep at h
  split_ifs at h
  · cases h
    exact ⟨rfl, rfl⟩
  · cases h
  · rw [next?_expect h]
    exact ⟨rfl, rfl⟩

/-- With an octet the parser stays outside of quoted strings, and no text comes to its tokens or
goes; or it comes inside of one, where a token may begin. -/
theorem step_outside (hq : m.quoting? = none) (h : (step l m b).next? = some m') :
    m'.IsOutside m.quotations ∨ ∃ n, b = octet '"' ∧ m' = .quoted n [] ∧
      step l m (octet '"') = .take (.quoted n []) ∧ n.quotations = m.quotations := by
  have among {n : Nest} (ht : (tokensStep n b).next? = some m')
      (hs : step l m (octet '"') = tokensStep n (octet '"')) (hm : n.quotations = m.quotations) :
      m'.IsOutside m.quotations ∨ ∃ n, b = octet '"' ∧ m' = .quoted n [] ∧
        step l m (octet '"') = .take (.quoted n []) ∧ n.quotations = m.quotations := by
    rcases outside_tokensStep ht with stays | ⟨hb, hm'⟩
    · exact .inl (hm ▸ stays)
    · exact .inr ⟨n, hb, hm', hs, hm⟩
  cases m with
  | tokens n => exact among h rfl rfl
  | untagged =>
    rw [step] at h
    split_ifs at h
    · cases h
      exact .inl ⟨rfl, rfl⟩
    · exact among h rfl rfl
  | keyword word =>
    rw [step] at h
    split_ifs at h
    · cases h
      exact .inl ⟨rfl, rfl⟩
    · split at h
      · exact .inl (outside_gapStep h)
      next hw =>
        have none : (⟨.data, [], [.atom (wordText word)]⟩ : Nest).quotations = [] := by
          simp [Nest.quotations, quotationsOf, Token.quotations]
        refine among h ?_ none
        simp only [step, hw]
        rfl
  | atom n word =>
    rw [step] at h
    split_ifs at h
    · cases h
      exact .inl ⟨rfl, rfl⟩
    · refine among h rfl ?_
      simp [quotations_push, Token.quotations, Mode.quotations]
  | quoted | escape => cases hq
  | start =>
    rw [step] at h
    split_ifs at h
    · cases h
      exact .inl ⟨rfl, rfl⟩
    · cases h
      exact .inl ⟨rfl, rfl⟩
    · exact .inl (outside_tagStep h)
  | plus =>
    rw [step] at h
    split_ifs at h
    · cases h
      exact .inl ⟨rfl, rfl⟩
    · exact .inl (outside_textStep h)
  | star =>
    rw [next?_expect h]
    exact .inl ⟨rfl, rfl⟩
  | tag word => exact .inl (outside_tagStep h)
  | verdict tag word =>
    rw [step] at h
    split_ifs at h
    · cases h
      exact .inl ⟨rfl, rfl⟩
    · split at h
      · exact .inl (outside_gapStep h)
      · cases h
  | gap head => exact .inl (outside_gapStep h)
  | code head => exact .inl (outside_codeStep h)
  | codeGap head code => exact .inl (outside_codeGapStep h)
  | text goal word => exact .inl (outside_textStep h)
  | textEnd goal word => cases next?_lineFeed h
  | tokensEnd n => cases next?_lineFeed h
  | size n digits =>
    rw [step, sizeStep] at h
    split_ifs at h
    · cases h
      exact .inl ⟨rfl, rfl⟩
    · cases h
      exact .inl ⟨rfl, rfl⟩
    · exact .inl (outside_braceStep h)
  | brace n digits => exact .inl (outside_braceStep h)
  | sizeEnd n size =>
    rw [next?_lineEnd h]
    exact .inl ⟨rfl, rfl⟩
  | sizeLf n size =>
    cases next?_lineFeed h
    split
    · exact .inl ⟨rfl, by simp [literalMode, Mode.quotations, quotations_push, Token.quotations]⟩
    · exact .inl ⟨rfl, rfl⟩
  | payload n size missing stored =>
    rw [step, payloadStep] at h
    split_ifs at h
    · cases h
      exact .inl ⟨rfl, by simp [literalMode, Mode.quotations, quotations_push, Token.quotations]⟩
    · cases h
      exact .inl ⟨rfl, rfl⟩

theorem tokensStep_ne_finish (n : Nest) (b : UInt8) : tokensStep n b ≠ .finish r := by
  unfold tokensStep tokensEndStep openStep closeStep lineEnd
  split_ifs <;> grind

theorem quotations_response (goal : Goal) (text : String) :
    (goal.response text).quotations = goal.quotations := by
  rcases goal with _ | ⟨_ | _, code⟩ <;>
    simp [Goal.response, Head.response, Response.quotations, Goal.quotations, quotationsOf,
      Token.quotations]

/-- A response has the quoted strings that have been read for it. -/
theorem finish_outside (h : step l m b = .finish r) :
    m.quoting? = none ∧ r.quotations = m.quotations := by
  cases m with
  | textEnd goal word =>
    rw [step, lineFeed] at h
    split_ifs at h
    cases h
    exact ⟨rfl, quotations_response goal _⟩
  | tokensEnd n =>
    rw [step, lineFeed] at h
    split_ifs at h
    cases h
    exact ⟨rfl, by simp [Response.quotations, Mode.quotations]⟩
  | _ =>
    simp only [step, expect, lineEnd, lineFeed, textStep, codeStep, gapStep, codeGapStep,
      quotedStep, escapeStep, braceStep, sizeStep, payloadStep, tagStep] at h
    grind [tokensStep_ne_finish]

/-! ### From quote to quote -/

theorem take_of_quoting (hq : m.quoting? = some n) (h : (step l m b).next? = some m') :
    step l m b = .take m' := by
  cases m with
  | quoted n' word =>
    rw [step, quotedStep] at h ⊢
    grind [Move.next?]
  | escape n' word =>
    rw [step, escapeStep] at h ⊢
    grind [Move.next?]
  | _ => cases hq

theorem step_enters (hq : m.quoting? = none) (h : (step l m b).next? = some m')
    (hm : m'.quoting? = some n) :
    b = octet '"' ∧ step l m (octet '"') = .take (.quoted n []) ∧ m' = .quoted n [] := by
  rcases step_outside hq h with stays | ⟨n', hb, rfl, opens, -⟩
  · rw [stays.1] at hm
    cases hm
  · cases hm
    exact ⟨hb, opens, rfl⟩

/-- How a quoted string goes on: it ends, or a backslash comes, or another octet of its line. -/
theorem next?_quoted (h : (step l (.quoted n word) b).next? = some m') :
    (b = octet '"' ∧ ∃ t, Text.Utf8.text? word.reverse = some t ∧
      m' = .tokens (n.push (.quoted t))) ∨
    (b = octet '\\' ∧ m' = .escape n word) ∨
    (b ≠ octet '"' ∧ b ≠ octet '\\' ∧ Octet.isText b = true ∧ m' = .quoted n (b :: word)) := by
  rw [step, quotedStep] at h
  split_ifs at h with quote slash ends
  · cases ht : Text.Utf8.text? word.reverse with
    | none =>
      rw [ht] at h
      cases h
    | some t =>
      rw [ht] at h
      cases h
      exact .inl ⟨quote, t, rfl, rfl⟩
  · cases h
    exact .inr (.inl ⟨slash, rfl⟩)
  · cases h
  · cases h
    exact .inr (.inr ⟨quote, slash, by simpa [Octet.isText] using ends, rfl⟩)

theorem next?_escape (h : (step l (.escape n word) b).next? = some m') :
    (b = octet '"' ∨ b = octet '\\') ∧ m' = .quoted n (b :: word) := by
  rw [step, escapeStep] at h
  split_ifs at h with special
  · cases h
    exact ⟨by simpa using special, rfl⟩
  · cases h

theorem step_quote {t : String} (ht : Text.Utf8.text? word.reverse = some t) :
    step l (.quoted n word) (octet '"') = .take (.tokens (n.push (.quoted t))) := by
  rw [step, quotedStep, if_pos rfl, ht]

theorem step_text (hq : b ≠ octet '"') (hs : b ≠ octet '\\') (hb : Octet.isText b = true) :
    step l (.quoted n word) b = .take (.quoted n (b :: word)) := by
  have inLine : ¬ (b = Bytes.cr || b = Bytes.lf) = true := by simpa [Octet.isText] using hb
  rw [step, quotedStep, if_neg hq, if_neg hs, if_neg inLine]

theorem step_escaped (hb : b = octet '"' ∨ b = octet '\\') :
    step l (.escape n word) b = .take (.quoted n (b :: word)) := by
  rw [step, escapeStep, if_pos (by simpa using hb)]

/-- Octets that complete a text of which there is a beginning: those it lacks, with a backslash
where there has to be one, and a quote. -/
def QuotedFrom (v : String) (word bs : Bytes) : Prop :=
  ∃ cs, bs = Grammar.escaped cs ++ [octet '"'] ∧
    Text.Utf8.text? (word.reverse ++ cs) = some v ∧ ∀ c ∈ cs, Octet.isText c = true

def Mode.Lacks (v : String) (bs : Bytes) : Mode → Prop
  | .quoted _ word => QuotedFrom v word bs
  | .escape _ word => QuotedFrom v word (octet '\\' :: bs)
  | _ => False

theorem quotedFrom_quote (h : Text.Utf8.text? word.reverse = some v) :
    QuotedFrom v word [octet '"'] :=
  ⟨[], rfl, by rwa [List.append_nil], nofun⟩

theorem quotedFrom_text (hq : b ≠ octet '"') (hs : b ≠ octet '\\') (hb : Octet.isText b = true)
    (h : QuotedFrom v (b :: word) bs) : QuotedFrom v word (b :: bs) := by
  obtain ⟨cs, rfl, ht, hc⟩ := h
  refine ⟨b :: cs, ?_, by simpa using ht, List.forall_mem_cons.mpr ⟨hb, hc⟩⟩
  rw [Grammar.escaped, if_neg (by simp [hq, hs]), List.cons_append]

theorem quotedFrom_escaped (hb : b = octet '"' ∨ b = octet '\\')
    (h : QuotedFrom v (b :: word) bs) : QuotedFrom v word (octet '\\' :: b :: bs) := by
  have text : Octet.isText b = true := by
    rcases hb with rfl | rfl <;> decide
  obtain ⟨cs, rfl, ht, hc⟩ := h
  refine ⟨b :: cs, ?_, by simpa using ht, List.forall_mem_cons.mpr ⟨text, hc⟩⟩
  rw [Grammar.escaped, if_pos (by simpa using hb)]
  rfl

def State.past (s : State) (bs : Bytes) (m : Mode) : State :=
  ⟨m, s.position + bs.length, s.line + bs.length⟩

theorem past_advance (s : State) (b : UInt8) (m : Mode) :
    (s.advance m').past bs m = s.past (b :: bs) m := by
  simp only [State.past, State.advance, List.length_cons, State.mk.injEq, true_and]
  omega

theorem lacks_last (hq : m.quoting? = some n)
    (h : (step l m b).next? = some (.tokens (n.push (.quoted v)))) : m.Lacks v [b] := by
  cases m with
  | quoted n' word =>
    rcases next?_quoted h with ⟨rfl, t, ht, hm⟩ | ⟨-, hm⟩ | ⟨-, -, -, hm⟩
    · simp only [Mode.tokens.injEq, Nest.push, Nest.mk.injEq, List.cons.injEq,
        Token.quoted.injEq] at hm
      obtain ⟨-, -, rfl, -⟩ := hm
      exact quotedFrom_quote ht
    · cases hm
    · cases hm
  | escape n' word => cases (next?_escape h).2
  | _ => cases hq

theorem lacks_cons (hq : m.quoting? = some n) (h : (step l m b).next? = some m')
    (hq' : m'.quoting? = some n) (lacks : m'.Lacks v bs) : m.Lacks v (b :: bs) := by
  cases m with
  | quoted n' word =>
    rcases next?_quoted h with ⟨-, t, -, rfl⟩ | ⟨rfl, rfl⟩ | ⟨quote, slash, text, rfl⟩
    · cases hq'
    · exact lacks
    · exact quotedFrom_text quote slash text lacks
  | escape n' word =>
    obtain ⟨special, rfl⟩ := next?_escape h
    exact quotedFrom_escaped special lacks
  | _ => cases hq

theorem taken_of_quoting (hq : s.mode.quoting? = some n) (h : consume l s [b] = .more s') :
    s.line < l.line ∧ s' = s.advance s'.mode :=
  (consume_eq_more_of_take (take_of_quoting hq (next?_of_consume h))).mp h

/-- An end of a quoted string completes its text, octet by octet. -/
theorem lacks_of_endsQuoted (h : EndsQuoted l n v s bs s') (hq : s.mode.quoting? = some n) :
    s.mode.Lacks v bs ∧ s.line + bs.length ≤ l.line ∧
      s' = s.past bs (.tokens (n.push (.quoted v))) := by
  induction h with
  | @last s s' b hb hs' =>
    obtain ⟨room, taken⟩ := taken_of_quoting hq hb
    have next := next?_of_consume hb
    rw [hs'] at next taken
    exact ⟨lacks_last hq next, room, taken⟩
  | @cons s s₁ s' b bs hb hq' _ ih =>
    obtain ⟨room, taken⟩ := taken_of_quoting hq hb
    obtain ⟨lacks, fits, rfl⟩ := ih hq'
    refine ⟨lacks_cons hq (next?_of_consume hb) hq' lacks, ?_, ?_⟩
    · rw [taken] at fits
      simp only [State.advance, List.length_cons] at fits ⊢
      omega
    · rw [taken]
      exact past_advance s b _

theorem endsQuoted_cons (hm : step l s.mode b = .take m') (hq : m'.quoting? = some n)
    (room : s.line < l.line) (h : EndsQuoted l n v (s.advance m') bs s') :
    EndsQuoted l n v s (b :: bs) s' :=
  .cons ((consume_eq_more_of_take hm).mpr ⟨room, rfl⟩) hq h

/-- Octets that complete a text within the limit end a quoted string with it. -/
theorem endsQuoted_escaped (hm : s.mode = .quoted n word)
    (ht : Text.Utf8.text? (word.reverse ++ cs) = some v)
    (hc : ∀ c ∈ cs, Octet.isText c = true)
    (fits : s.line + (Grammar.escaped cs ++ [octet '"']).length ≤ l.line) :
    EndsQuoted l n v s (Grammar.escaped cs ++ [octet '"'])
      (s.past (Grammar.escaped cs ++ [octet '"']) (.tokens (n.push (.quoted v)))) := by
  induction cs generalizing s word with
  | nil =>
    rw [List.append_nil] at ht
    have closes : step l s.mode (octet '"') = .take (.tokens (n.push (.quoted v))) := by
      rw [hm]
      exact step_quote ht
    exact .last ((consume_eq_more_of_take closes).mpr ⟨fits, rfl⟩) rfl
  | cons c cs ih =>
    obtain ⟨text, hcs⟩ := List.forall_mem_cons.mp hc
    rw [List.append_cons, ← List.reverse_cons] at ht
    by_cases special : c = octet '"' ∨ c = octet '\\'
    · have spelled : Grammar.escaped (c :: cs) = octet '\\' :: c :: Grammar.escaped cs := by
        rw [Grammar.escaped, if_pos (by simpa using special)]
      rw [spelled] at fits ⊢
      simp only [List.cons_append, List.length_cons] at fits ⊢
      let escape := s.advance (.escape n word)
      have slash : step l s.mode (octet '\\') = .take (.escape n word) := by
        rw [hm]
        rfl
      have room : escape.line < l.line := by
        simp only [escape, State.advance]
        omega
      have rest := @ih (escape.advance (.quoted n (c :: word))) (c :: word) rfl ht hcs
        (by simp only [escape, State.advance]; omega)
      rw [past_advance, past_advance] at rest
      have after := endsQuoted_cons (step_escaped special) rfl room rest
      exact endsQuoted_cons slash rfl (by omega) after
    · have spelled : Grammar.escaped (c :: cs) = c :: Grammar.escaped cs := by
        rw [Grammar.escaped, if_neg (by simpa using special)]
      rw [spelled] at fits ⊢
      simp only [List.cons_append, List.length_cons] at fits ⊢
      obtain ⟨notQuote, notSlash⟩ := not_or.mp special
      have takes : step l s.mode c = .take (.quoted n (c :: word)) := by
        rw [hm]
        exact step_text notQuote notSlash text
      have rest := @ih (s.advance (.quoted n (c :: word))) (c :: word) rfl ht hcs
        (by simp only [State.advance]; omega)
      rw [past_advance] at rest
      exact endsQuoted_cons takes rfl (by omega) rest

theorem isText_iff_isLine : (∀ b ∈ Bytes.ofText v, Octet.isText b = true) ↔ Text.IsLine v := by
  constructor
  · intro h c hc
    constructor
    · rintro rfl
      cases h _ ((Text.Utf8.octet_mem_ofText_iff (by decide)).mpr hc)
    · rintro rfl
      cases h _ ((Text.Utf8.octet_mem_ofText_iff (by decide)).mpr hc)
  · intro h b hb
    simp [Octet.isText, h.octets hb]

theorem isQuotation_iff : IsQuotation v bs ↔
    bs = octet '"' :: (Grammar.escaped (Bytes.ofText v) ++ [octet '"']) := by
  have octets := CommandReader.octets_quoted v true
  constructor
  · rintro ⟨text, ht, rfl⟩
    rw [ht] at octets
    exact List.tail_eq_of_cons_eq octets
  · rintro rfl
    refine ⟨_, rfl, ?_⟩
    exact (List.tail_eq_of_cons_eq octets).symm

theorem decode_of_text? (h : Text.Utf8.text? bs = some v) : Text.Utf8.decode bs = .ok v := by
  unfold Text.Utf8.text? at h
  cases hd : Text.Utf8.decode bs <;> simp_all [Except.toOption]

theorem quoting?_of_opens (h : step l m (octet '"') = .take (.quoted n [])) :
    m.quoting? = none := by
  cases m with
  | quoted n' word =>
    have next : (step l (.quoted n' word) (octet '"')).next? = some (.quoted n []) := by
      rw [h]
      rfl
    rcases next?_quoted next with ⟨-, t, -, hm⟩ | ⟨-, hm⟩ | ⟨hm, -⟩
    · cases hm
    · cases hm
    · exact absurd rfl hm
  | escape n' word =>
    rw [step_escaped (.inl rfl)] at h
    cases h
  | _ => rfl

/-- What is taken for a quoted string is the quotation of its text, wherever a token may begin and
as long as the line is within the limit, and nothing else is. -/
theorem readsQuoted_iff : ReadsQuoted l n v s bs s' ↔
    step l s.mode (octet '"') = .take (.quoted n []) ∧ Text.IsLine v ∧ IsQuotation v bs ∧
      s.line + bs.length ≤ l.line ∧ s' = s.past bs (.tokens (n.push (.quoted v))) := by
  rw [isQuotation_iff, ← isText_iff_isLine]
  constructor
  · rintro ⟨outside, b, inner, s₁, rfl, hb, inside, ends⟩
    obtain ⟨rfl, opens, hm⟩ := step_enters outside (next?_of_consume hb) inside
    obtain ⟨room, taken⟩ := (consume_eq_more_of_take opens).mp hb
    obtain ⟨lacks, fits, rfl⟩ := lacks_of_endsQuoted ends inside
    rw [hm] at lacks
    obtain ⟨cs, rfl, ht, hc⟩ := lacks
    obtain rfl : cs = Bytes.ofText v := Text.Utf8.eq_ofText_of_decode (decode_of_text? ht)
    refine ⟨opens, hc, rfl, ?_, ?_⟩
    · rw [taken] at fits
      simp only [State.advance, List.length_cons] at fits ⊢
      omega
    · rw [taken]
      exact past_advance s _ _
  · rintro ⟨opens, text, rfl, fits, rfl⟩
    rw [List.length_cons] at fits
    have ends := @endsQuoted_escaped l n (s.advance (.quoted n [])) v [] (Bytes.ofText v) rfl
      (by simp) text (by simp only [State.advance]; omega)
    rw [past_advance] at ends
    exact ⟨quoting?_of_opens opens, _, _, _, rfl,
      (consume_eq_more_of_take opens).mpr ⟨by omega, rfl⟩, rfl, ends⟩

/-! ### The quoted strings of a response -/

/-- Octets from one state to another, outside of quoted strings at both ends, with the texts of the
quoted strings on the way. -/
inductive Passes (l : Limits) : State → Bytes → List String → State → Prop where
  | nil {s : State} : Passes l s [] [] s
  | octet {s s₁ s' : State} {b : UInt8} {bs : Bytes} {vs : List String} :
      consume l s [b] = .more s₁ → s.mode.quoting? = none → s₁.mode.quoting? = none →
      Passes l s₁ bs vs s' → Passes l s (b :: bs) vs s'
  | quoted {n : Nest} {v : String} {s s₁ s' : State} {taken bs : Bytes} {vs : List String} :
      ReadsQuoted l n v s taken s₁ → Passes l s₁ bs vs s' → Passes l s (taken ++ bs) (v :: vs) s'

theorem quotations_of_quoting (hq : m.quoting? = some n) : m.quotations = n.quotations := by
  cases m <;> cases hq <;> rfl

/-- Inside of a quoted string an octet stays there, or ends it with a text. -/
theorem step_inside (hq : m.quoting? = some n) (h : (step l m b).next? = some m') :
    m'.quoting? = some n ∨ ∃ v, m' = .tokens (n.push (.quoted v)) := by
  cases m with
  | quoted n' word =>
    cases hq
    rcases next?_quoted h with ⟨-, t, -, rfl⟩ | ⟨-, rfl⟩ | ⟨-, -, -, rfl⟩
    · exact .inr ⟨t, rfl⟩
    · exact .inl rfl
    · exact .inl rfl
  | escape n' word =>
    cases hq
    obtain ⟨-, rfl⟩ := next?_escape h
    exact .inl rfl
  | _ => cases hq

/-- What is left of a quoted string, and what comes after it. -/
theorem passes_of_consume (h : consume l s bs = .more s') (hs' : s'.mode.quoting? = none) :
    (s.mode.quoting? = none → ∃ vs, Passes l s bs vs s' ∧
      s'.mode.quotations = s.mode.quotations ++ vs) ∧
    ∀ n, s.mode.quoting? = some n → ∃ v taken s₁ after vs, bs = taken ++ after ∧
      EndsQuoted l n v s taken s₁ ∧ Passes l s₁ after vs s' ∧
      s'.mode.quotations = s.mode.quotations ++ v :: vs := by
  induction bs generalizing s with
  | nil =>
    rw [consume] at h
    split at h
    · cases h
    · cases h
      refine ⟨fun _ => ⟨[], .nil, by simp⟩, fun n hq => ?_⟩
      rw [hs'] at hq
      cases hq
  | cons b bs ih =>
    obtain ⟨s₁, hb, hbs⟩ := consume_cons_eq_more_iff.mp h
    have next := next?_of_consume hb
    obtain ⟨ihOut, ihIn⟩ := ih hbs
    constructor
    · intro outside
      rcases step_outside outside next with ⟨stays, texts⟩ | ⟨n, -, hm, -, texts⟩
      · obtain ⟨vs, passes, hv⟩ := ihOut stays
        exact ⟨vs, .octet hb outside stays passes, by rw [hv, texts]⟩
      · have inside : s₁.mode.quoting? = some n := by rw [hm]; rfl
        obtain ⟨v, taken, s₂, after, vs, rfl, ends, passes, hv⟩ := ihIn n inside
        refine ⟨v :: vs, .quoted ⟨outside, b, taken, s₁, rfl, hb, inside, ends⟩ passes, ?_⟩
        rw [hv, quotations_of_quoting inside, texts]
    · intro n hq
      rcases step_inside hq next with inside | ⟨v, hm⟩
      · obtain ⟨v, taken, s₂, after, vs, rfl, ends, passes, hv⟩ := ihIn n inside
        refine ⟨v, b :: taken, s₂, after, vs, rfl, .cons hb inside ends, passes, ?_⟩
        rw [hv, quotations_of_quoting inside, quotations_of_quoting hq]
      · obtain ⟨vs, passes, hv⟩ := ihOut (by rw [hm]; rfl)
        refine ⟨v, [b], s₁, bs, vs, rfl, .last hb hm, passes, ?_⟩
        rw [hv, hm, quotations_of_quoting hq]
        simp [Mode.quotations, quotations_push, Token.quotations]

/-- The quoted strings of a response, in their order, are what the parser took for quoted strings
on its way. -/
theorem passes_of_done (h : consume l initial bs = .done r rest) :
    ∃ front last s, bs = front ++ last :: rest ∧ Passes l initial front r.quotations s ∧
      step l s.mode last = .finish r := by
  obtain ⟨front, s, last, rfl, hf, hlast⟩ := finish_of_consume h
  obtain ⟨outside, texts⟩ := finish_outside hlast
  obtain ⟨vs, passes, hv⟩ := (passes_of_consume hf outside).1 rfl
  obtain rfl : vs = r.quotations := by
    rw [texts, hv]
    rfl
  exact ⟨front, last, s, rfl, passes, hlast⟩

/-- Quoted strings are read as they are written. Wherever a token may begin, what the parser takes
for a quoted string with some text is the quotation of this text, if the text has no line end and
the line is within its limit, and it is nothing else. Every quoted string of a response has been
read like this, however its octets came. -/
theorem quotation_of_quoted (l : Limits) :
    (∀ n v s bs s', ReadsQuoted l n v s bs s' ↔
      step l s.mode (octet '"') = .take (.quoted n []) ∧ Text.IsLine v ∧ IsQuotation v bs ∧
        s.line + bs.length ≤ l.line ∧ s' = s.past bs (.tokens (n.push (.quoted v)))) ∧
    ∀ (i i' : Wire.Inbox) deadline now now' r,
      i.pull (framing l) deadline now = (.item r, i', now') →
      ∃ front last s, i.content = front ++ last :: i'.content ∧
        Passes l initial front r.quotations s ∧ step l s.mode last = .finish r :=
  ⟨fun _ _ _ _ _ => readsQuoted_iff, fun _ _ _ _ _ _ h =>
    passes_of_done (Wire.Inbox.consume_of_pull seamless h)⟩

/-- A quote, a backslash and a character of two octets in one string, and another string that is
empty. The first piece ends behind a backslash. -/
theorem quotation_of_quoted_pair :
    (Wire.Inbox.ofPieces [] [Bytes.ofText "* (\"a\\", Bytes.ofText "\"\\\\é\" \"\")\r\n*"]).pull
        (framing ⟨80, 80⟩) 0 0 =
      (.item (.untagged ⟨[.list [.quoted "a\"\\é", .quoted ""]], none, none⟩),
        ⟨[octet '*'], []⟩, 0) ∧
    (∃ front last s, Bytes.ofText "* (\"a\\\"\\\\é\" \"\")\r\n*" = front ++ [last, octet '*'] ∧
      Passes ⟨80, 80⟩ initial front ["a\"\\é", ""] s) ∧
    ReadsQuoted ⟨80, 80⟩ ⟨.data, [], []⟩ "a\"\\é" ⟨.untagged, 2, 2⟩ (Bytes.ofText "\"a\\\"\\\\é\"")
      ⟨.tokens ⟨.data, [], [.quoted "a\"\\é"]⟩, 11, 11⟩ := by
  have h : (Wire.Inbox.ofPieces [] [Bytes.ofText "* (\"a\\",
      Bytes.ofText "\"\\\\é\" \"\")\r\n*"]).pull (framing ⟨80, 80⟩) 0 0 =
        (.item (.untagged ⟨[.list [.quoted "a\"\\é", .quoted ""]], none, none⟩),
          ⟨[octet '*'], []⟩, 0) := by
    with_unfolding_all rfl
  obtain ⟨spelled, every⟩ := quotation_of_quoted ⟨80, 80⟩
  obtain ⟨front, last, s, hc, passes, -⟩ := every _ _ _ _ _ _ h
  simp only [Response.quotations, quotationsOf, Token.quotations, Option.getD_none,
    List.flatMap_cons, List.flatMap_nil, List.cons_append, List.append_nil] at passes
  refine ⟨h, ⟨front, last, s, hc, passes⟩, (spelled _ _ _ _ _).mpr ⟨rfl, ?_, ⟨_, rfl, ?_⟩, ?_, ?_⟩⟩
  · decide
  · decide +kernel
  · decide +kernel
  · rfl

end Parse
end MailClient.Imap
