import Mathlib.Tactic.SplitIfs
import MailClient.Proofs.Imap.Rendering
import MailClient.Proofs.Imap.Scan
import MailClient.Proofs.Text.Utf8

/-! What has been rendered is read again, literals with octets of any kind and groups of any depth
included. Each part of a rendering takes the reader from one mode to the next, or makes a line too
long; either is an equation between what `scan` finds before and after it. -/
namespace MailClient.Imap.Parse

open Grammar

variable {l : Limits} {m m' : Mode} {n : Nest} {head : Head} {goal : Goal} {r : Response}
  {k : Nat} {b : UInt8} {bs word rest : Bytes}

/-! ### Lines -/

def lineAfter (k : Nat) : List Fragment → Nat
  | [] => k
  | .text bs :: fs => lineAfter (k + bs.length) fs
  | .payload _ :: fs => lineAfter 0 fs

/-- Whether no line but the last is longer than `limit`. -/
def fits (limit k : Nat) : List Fragment → Bool
  | [] => true
  | .text bs :: fs => fits limit (k + bs.length) fs
  | .payload _ :: fs => decide (k ≤ limit) && fits limit 0 fs

theorem lineAfter_append (k : Nat) (fs gs : List Fragment) :
    lineAfter k (fs ++ gs) = lineAfter (lineAfter k fs) gs := by
  induction fs generalizing k with
  | nil => rfl
  | cons f fs ih =>
    cases f with
    | text bs => exact ih (k + bs.length)
    | payload bs => exact ih 0

theorem fits_append (limit k : Nat) (fs gs : List Fragment) :
    fits limit k (fs ++ gs) = (fits limit k fs && fits limit (lineAfter k fs) gs) := by
  induction fs generalizing k with
  | nil => rfl
  | cons f fs ih =>
    cases f with
    | text bs => exact ih (k + bs.length)
    | payload bs =>
      rw [List.cons_append, fits, fits, ih 0, Bool.and_assoc]
      rfl

theorem segments_fit (limit : Nat) (line : Bytes) (fs : List Fragment) :
    (∀ s ∈ Fragment.segmentsAfter line fs, s.length ≤ limit) ↔
      fits limit line.length fs = true ∧ lineAfter line.length fs ≤ limit := by
  induction fs generalizing line with
  | nil => simp [Fragment.segmentsAfter, fits, lineAfter]
  | cons f fs ih =>
    cases f with
    | text bs =>
      rw [Fragment.segmentsAfter, ih, List.length_append]
      rfl
    | payload bs =>
      rw [Fragment.segmentsAfter, List.forall_mem_cons, ih, ← and_assoc, fits, Bool.and_eq_true,
        decide_eq_true_eq]
      rfl

/-! ### Octets of a line -/

def Move.onLine? : Move → Option Mode
  | .run m | .begin m | .take m => some m
  | _ => none

theorem scan_cons (h : (step l m b).onLine? = some m') :
    scan l m k (b :: bs) = scan l m' (k + 1) bs := by
  rw [scan]
  generalize step l m b = move at h
  cases move with
  | run | begin | take =>
    cases h
    dsimp only
    split_ifs with hk
    · rfl
    · exact (scan_of_tooLong (by omega)).symm
  | _ => cases h

theorem scan_lineEnd {next : Mode} (h : step l m Bytes.cr = .take next)
    (hn : step l next Bytes.lf = .newLine m') :
    scan l m k (Bytes.crlf ++ rest) = if k + 2 ≤ l.line then scan l m' 0 rest else none := by
  have hc : (step l m Bytes.cr).onLine? = some next := by rw [h]; rfl
  change scan l m k (Bytes.cr :: Bytes.lf :: rest) = _
  rw [scan_cons hc, scan, hn]
  rfl

theorem scan_finish {next : Mode} (h : step l m Bytes.cr = .take next)
    (hn : step l next Bytes.lf = .finish r) :
    scan l m k (Bytes.crlf ++ rest) = if k + 2 ≤ l.line then some (r, rest) else none := by
  have hc : (step l m Bytes.cr).onLine? = some next := by rw [h]; rfl
  change scan l m k (Bytes.cr :: Bytes.lf :: rest) = _
  rw [scan_cons hc, scan, hn]
  rfl

/-- A run of octets of one kind, which the modes `f` collect. -/
theorem scan_run {f : Bytes → Mode} {kind : UInt8 → Bool}
    (hf : ∀ word b, kind b = true → (step l (f word) b).onLine? = some (f (b :: word)))
    (hb : ∀ b ∈ bs, kind b = true) :
    scan l (f word) k (bs ++ rest) = scan l (f (bs.reverse ++ word)) (k + bs.length) rest := by
  induction bs generalizing word k with
  | nil => rfl
  | cons b bs ih =>
    obtain ⟨hb, hbs⟩ := List.forall_mem_cons.mp hb
    rw [List.cons_append, scan_cons (hf word b hb), ih hbs, List.reverse_cons, List.append_assoc,
      List.length_cons, Nat.add_assoc, Nat.add_comm 1]
    rfl

/-! ### Words, strings and literals -/

theorem atom_onLine (n : Nest) (word : Bytes) (b : UInt8) (h : Octet.isAtom b = true) :
    (step l (.atom n word) b).onLine? = some (.atom n (b :: word)) := by
  rw [step, if_pos h]
  rfl

theorem text_onLine (goal : Goal) (word : Bytes) (b : UInt8) (h : Octet.isText b = true) :
    (step l (.text goal word) b).onLine? = some (.text goal (b :: word)) := by
  rw [step, textStep, h]
  cases word <;> rfl

theorem digit_onLine (n : Nest) (digits : Bytes) (b : UInt8) (h : Octet.isDigit b = true) :
    (step l (.size n digits) b).onLine? = some (.size n (b :: digits)) := by
  rw [step, sizeStep, if_pos h]
  rfl

theorem tokensStep_of_isAtom (h : Octet.isAtom b = true) :
    tokensStep n b = .begin (.atom n [b]) := by
  have hs : ∀ c : Char, Octet.isAtom (octet c) = false → b ≠ octet c := by
    rintro c hc rfl
    rw [h] at hc
    cases hc
  have hcr : b ≠ Bytes.cr := by
    rintro rfl
    exact absurd h (by decide)
  have hlf : b ≠ Bytes.lf := by
    rintro rfl
    exact absurd h (by decide)
  unfold tokensStep
  rw [if_neg (hs ' ' (by decide)), if_neg (by simp [hcr, hlf]), if_neg (hs '(' (by decide)),
    if_neg (hs '[' (by decide)), if_neg (by simp [hs ')' (by decide), hs ']' (by decide)]),
    if_neg (hs '"' (by decide)), if_neg (hs '\x7b' (by decide)), if_pos h]

/-- At the end of an atom the reader goes on as if it had been among tokens. -/
theorem scan_atom_end (h : ∀ b ∈ rest.head?, Octet.isAtom b = false) :
    scan l (.atom n word) k rest = scan l (.tokens (n.push (.atom (wordText word)))) k rest := by
  cases rest with
  | nil => rfl
  | cons b rest =>
    have hb : Octet.isAtom b = false := h b rfl
    rw [scan, scan, step, step, hb]
    rfl

theorem scan_atom {s : String} (hs : s ≠ "") (ha : ∀ b ∈ Bytes.ofText s, Octet.isAtom b = true)
    (h : ∀ b ∈ rest.head?, Octet.isAtom b = false) :
    scan l (.tokens n) k (Bytes.ofText s ++ rest) =
      scan l (.tokens (n.push (.atom s))) (k + (Bytes.ofText s).length) rest := by
  have hw : wordText (Bytes.ofText s).reverse = s := by simp [wordText]
  obtain ⟨b, bs, he⟩ := List.exists_cons_of_ne_nil (Text.Utf8.ofText_ne_nil hs)
  rw [he] at ha hw ⊢
  obtain ⟨hb, hbs⟩ := List.forall_mem_cons.mp ha
  have hone : (step l (.tokens n) b).onLine? = some (.atom n [b]) := by
    rw [step, tokensStep_of_isAtom hb]
    rfl
  rw [List.cons_append, scan_cons hone, scan_run (atom_onLine n) hbs, scan_atom_end h,
    ← List.reverse_cons, hw, List.length_cons, Nat.add_assoc, Nat.add_comm 1]

theorem scan_escaped (hb : ∀ b ∈ bs, Octet.isText b = true) :
    scan l (.quoted n word) k (escaped bs ++ rest) =
      scan l (.quoted n (bs.reverse ++ word)) (k + (escaped bs).length) rest := by
  induction bs generalizing word k with
  | nil => rfl
  | cons b bs ih =>
    obtain ⟨hb, hbs⟩ := List.forall_mem_cons.mp hb
    have hcons : (b :: bs).reverse ++ word = bs.reverse ++ b :: word := by simp
    rw [escaped, hcons]
    by_cases he : (b = octet '"' || b = octet '\\') = true
    · have hslash : (step l (.quoted n word) (octet '\\')).onLine? = some (.escape n word) := rfl
      have hthen : (step l (.escape n word) b).onLine? = some (.quoted n (b :: word)) := by
        rw [step, escapeStep, if_pos he]
        rfl
      rw [if_pos he, List.cons_append, List.cons_append, scan_cons hslash, scan_cons hthen, ih hbs,
        List.length_cons, List.length_cons]
      congr 1
      omega
    · rw [Bool.or_eq_true, not_or, decide_eq_true_eq, decide_eq_true_eq] at he
      have hl : ¬ (b = Bytes.cr || b = Bytes.lf) = true := by simpa [Octet.isText] using hb
      have hthen : (step l (.quoted n word) b).onLine? = some (.quoted n (b :: word)) := by
        rw [step, quotedStep, if_neg he.1, if_neg he.2, if_neg hl]
        rfl
      rw [if_neg (by simp [he.1, he.2]), List.cons_append, scan_cons hthen, ih hbs,
        List.length_cons]
      congr 1
      omega

theorem scan_quoted {s : String} (hs : ∀ b ∈ Bytes.ofText s, Octet.isText b = true) :
    scan l (.tokens n) k (octet '"' :: escaped (Bytes.ofText s) ++ octet '"' :: rest) =
      scan l (.tokens (n.push (.quoted s))) (k + (escaped (Bytes.ofText s)).length + 2) rest := by
  have hopen : (step l (.tokens n) (octet '"')).onLine? = some (.quoted n []) := rfl
  have hclose : (step l (.quoted n ((Bytes.ofText s).reverse ++ [])) (octet '"')).onLine? =
      some (.tokens (n.push (.quoted s))) := by
    rw [step, quotedStep, if_pos rfl, List.append_nil, List.reverse_reverse, Text.Utf8.text?_ofText]
    rfl
  rw [List.cons_append, scan_cons hopen, scan_escaped hs, scan_cons hclose]
  congr 1
  omega

theorem sizeOf?_toString {size : Nat} (h : size < Nat.pow 2 64) :
    sizeOf? (Bytes.ofText (toString size)).reverse = some size := by
  rw [sizeOf?, List.reverse_reverse, Text.map_latin1_toString]
  exact Text.natOfDigits?_toDigits h

theorem scan_payload {size missing : Nat} {stored : Bytes} (h : bs.length = missing)
    (hm : 0 < missing) :
    scan l (.payload n size missing stored) 0 (bs ++ rest) =
      scan l (literalMode l n (bs.reverse ++ stored)) 0 rest := by
  induction bs generalizing missing stored with
  | nil => exact absurd h (Nat.ne_of_lt hm)
  | cons b bs ih =>
    rw [List.cons_append, scan, step, payloadStep, List.reverse_cons, List.append_assoc]
    subst h
    cases bs with
    | nil =>
      rw [if_pos (show [b].length ≤ 1 from Nat.le_refl 1)]
      exact if_pos (Nat.zero_le l.line)
    | cons c cs =>
      rw [if_neg (by simp)]
      exact (if_pos (Nat.zero_le l.line)).trans (ih rfl (Nat.succ_pos _))

theorem scan_literal {bytes : Bytes} (h : bytes.length < Nat.pow 2 64) :
    scan l (.tokens n) k (Token.header bytes.length ++ bytes ++ rest) =
      if k + (Token.header bytes.length).length ≤ l.line then
        scan l (.tokens (n.push (.literal (.store l.spill bytes)))) 0 rest
      else none := by
  have hopen : (step l (.tokens n) (octet '\x7b')).onLine? = some (.size n []) := rfl
  have hclose : (step l (.size n (Bytes.ofText (toString bytes.length)).reverse)
      (octet '\x7d')).onLine? = some (.sizeEnd n bytes.length) := by
    rw [step, sizeStep, if_neg (by decide), if_neg (by decide), braceStep, if_pos rfl,
      sizeOf?_toString h]
    rfl
  have hbytes : Token.header bytes.length ++ bytes ++ rest = octet '\x7b' ::
      (Bytes.ofText (toString bytes.length) ++
        octet '\x7d' :: (Bytes.crlf ++ (bytes ++ rest))) := by
    simp [Token.header]
  have hlength : k + (Token.header bytes.length).length =
      k + 1 + (Bytes.ofText (toString bytes.length)).length + 1 + 2 := by
    simp [Token.header, Bytes.crlf]
    omega
  rw [hbytes, hlength, scan_cons hopen,
    scan_run (digit_onLine n) fun b => Octet.isDigit_of_mem_ofText, List.append_nil,
    scan_cons hclose, scan_lineEnd rfl rfl]
  congr 1
  by_cases hz : bytes.length = 0
  · rw [if_pos hz, List.eq_nil_of_length_eq_zero hz]
    rfl
  · rw [if_neg hz, scan_payload rfl (Nat.pos_of_ne_zero hz), literalMode, List.append_nil,
      List.reverse_reverse]

/-! ### Tokens -/

/-- Fragments that take the reader from one mode to another, before anything but more of a word. -/
def Reads (l : Limits) (m : Mode) (fs : List Fragment) (m' : Mode) : Prop :=
  ∀ k rest, (∀ b ∈ rest.head?, Octet.isAtom b = false) →
    scan l m k (octetsOf fs ++ rest) =
      if fits l.line k fs = true then scan l m' (lineAfter k fs) rest else none

def Nest.extend (n : Nest) (ts : List Token) : Nest := { n with items := ts.reverse ++ n.items }

theorem octetsOf_append (fs gs : List Fragment) :
    octetsOf (fs ++ gs) = octetsOf fs ++ octetsOf gs :=
  List.flatMap_append

/-- Fragments are read one after the other. -/
theorem Reads.append {fs gs : List Fragment} {m'' : Mode} (hf : Reads l m fs m')
    (hg : Reads l m' gs m'')
    (hs : ∀ rest : Bytes, (∀ b ∈ rest.head?, Octet.isAtom b = false) →
      ∀ b ∈ (octetsOf gs ++ rest).head?, Octet.isAtom b = false) : Reads l m (fs ++ gs) m'' := by
  intro k rest hr
  rw [octetsOf_append, List.append_assoc, hf _ _ (hs rest hr), hg _ _ hr, fits_append,
    lineAfter_append]
  cases fits l.line k fs <;> simp

/-- An octet that stands for itself, in front of more fragments. -/
theorem Reads.octet_cons {fs : List Fragment} {m'' : Mode} (h : (step l m b).onLine? = some m')
    (hf : Reads l m' fs m'') : Reads l m (.text [b] :: fs) m'' := by
  intro k rest hr
  exact (scan_cons h).trans (hf _ _ hr)

theorem Reads.nil : Reads l m [] m := by
  intro k rest _
  exact (if_pos rfl).symm

theorem head_following (ts : List Token) {rest : Bytes}
    (hr : ∀ b ∈ rest.head?, Octet.isAtom b = false) :
    ∀ b ∈ (octetsOf (Token.following ts) ++ rest).head?, Octet.isAtom b = false := by
  cases ts with
  | nil => exact hr
  | cons t ts =>
    rw [Token.following]
    rintro b ⟨⟩
    decide

/-- Tokens of which each is read are read together, after a first one. -/
theorem reads_following {ts : List Token}
    (h : ∀ t ∈ ts, ∀ n, Reads l (.tokens n) t.fragments (.tokens (n.push (t.storedAt l.spill)))) :
    Reads l (.tokens n) (Token.following ts)
      (.tokens (n.extend (Token.allStoredAt l.spill ts))) := by
  induction ts generalizing n with
  | nil => exact Reads.nil
  | cons t ts ih =>
    obtain ⟨ht, hts⟩ := List.forall_mem_cons.mp h
    have hspace : (step l (.tokens n) (octet ' ')).onLine? = some (.tokens n) := rfl
    have hextend : n.extend (Token.allStoredAt l.spill (t :: ts)) =
        (n.push (t.storedAt l.spill)).extend (Token.allStoredAt l.spill ts) := by
      simp [Nest.extend, Nest.push, Token.allStoredAt]
    rw [Token.following, hextend]
    exact .octet_cons hspace ((ht n).append (ih hts) fun rest hr => head_following ts hr)

theorem reads_spaced {ts : List Token}
    (h : ∀ t ∈ ts, ∀ n, Reads l (.tokens n) t.fragments (.tokens (n.push (t.storedAt l.spill)))) :
    Reads l (.tokens n) (Token.spaced ts) (.tokens (n.extend (Token.allStoredAt l.spill ts))) := by
  cases ts with
  | nil => exact Reads.nil
  | cons t ts =>
    obtain ⟨ht, hts⟩ := List.forall_mem_cons.mp h
    have hextend : n.extend (Token.allStoredAt l.spill (t :: ts)) =
        (n.push (t.storedAt l.spill)).extend (Token.allStoredAt l.spill ts) := by
      simp [Nest.extend, Nest.push, Token.allStoredAt]
    rw [Token.spaced, hextend]
    exact (ht n).append (reads_following hts) fun rest hr => head_following ts hr

theorem reads_token {t : Token} (h : t.Writable) (n : Nest) :
    Reads l (.tokens n) t.fragments (.tokens (n.push (t.storedAt l.spill))) := by
  induction h generalizing n with
  | atom hs ha =>
    intro k rest hr
    rw [Token.fragments, octetsOf, List.flatMap_singleton, Fragment.octets, scan_atom hs ha hr]
    rfl
  | quoted hs =>
    intro k rest _
    have hbytes {s : String} : octetsOf (Token.quoted s).fragments ++ rest =
        octet '"' :: escaped (Bytes.ofText s) ++ octet '"' :: rest := by
      simp [Token.fragments, octetsOf, Fragment.octets]
    rw [hbytes, scan_quoted hs]
    simp [Token.fragments, fits, lineAfter, Token.storedAt, Nat.add_assoc]
  | literal hb =>
    intro k rest _
    have hbytes {body : Literal} : octetsOf (Token.literal body).fragments ++ rest =
        Token.header body.bytes.length ++ body.bytes ++ rest := by
      simp [Token.fragments, octetsOf, Fragment.octets]
    rw [hbytes, scan_literal hb]
    simp [Token.fragments, fits, lineAfter, Token.storedAt]
  | @list items hi ih =>
    have hopen : (step l (.tokens n) (octet '(')).onLine? =
        some (.tokens ⟨n.place, ⟨octet ')', n.items⟩ :: n.groups, []⟩) := rfl
    have hclose (outer : List Group) (place : Place) (before ts : List Token) :
        (step l (.tokens ⟨place, ⟨octet ')', before⟩ :: outer, ts⟩) (octet ')')).onLine? =
          some (.tokens ⟨place, outer, .list ts.reverse :: before⟩) := rfl
    have hlist : n.push ((Token.list items).storedAt l.spill) = 
        ⟨n.place, n.groups,
          .list ((Token.allStoredAt l.spill items).reverse ++ []).reverse :: n.items⟩ := by
      simp [Nest.push, Token.storedAt]
    rw [Token.fragments, hlist]
    refine .octet_cons hopen (.append (reads_spaced ih) (.octet_cons (hclose ..) .nil) ?_)
    rintro rest hr b ⟨⟩
    decide

theorem reads_tokens {ts : List Token} (h : ∀ t ∈ ts, t.Writable) :
    Reads l (.tokens n) (Token.spaced ts) (.tokens (n.extend (Token.allStoredAt l.spill ts))) :=
  reads_spaced fun t ht n => reads_token (h t ht) n

/-! ### Ends of responses -/

def Completes (l : Limits) (m : Mode) (fs : List Fragment) (r : Response) : Prop :=
  ∀ k rest, scan l m k (octetsOf fs ++ rest) =
    if fits l.line k fs = true ∧ lineAfter k fs ≤ l.line then some (r, rest) else none

theorem Completes.octet_cons {fs : List Fragment} (h : (step l m b).onLine? = some m')
    (hf : Completes l m' (.text bs :: fs) r) : Completes l m (.text (b :: bs) :: fs) r := by
  intro k rest
  have hlength : k + (b :: bs).length = k + 1 + bs.length := by
    rw [List.length_cons]
    omega
  refine (scan_cons h).trans ((hf (k + 1) rest).trans ?_)
  rw [fits, fits, lineAfter, lineAfter, hlength]

theorem Completes.empty {fs : List Fragment} (hf : Completes l m fs r) :
    Completes l m (.text [] :: fs) r := hf

/-- Fragments that are read before the ones that complete a response. -/
theorem Completes.after {fs gs : List Fragment} (hf : Reads l m fs m') (hg : Completes l m' gs r)
    (hs : ∀ rest, ∀ b ∈ (octetsOf gs ++ rest).head?, Octet.isAtom b = false) :
    Completes l m (fs ++ gs) r := by
  intro k rest
  rw [octetsOf_append, List.append_assoc, hf _ _ (hs rest), hg, fits_append, lineAfter_append]
  cases fits l.line k fs <;> simp

theorem completes_text {s : String} (h : ∀ b ∈ Bytes.ofText s, Octet.isText b = true) :
    Completes l (.text goal []) [.text (Bytes.line s)] (goal.response s) := by
  intro k rest
  have hw : goal.response (wordText ((Bytes.ofText s).reverse ++ [])) = goal.response s := by
    simp [wordText]
  have hbytes : octetsOf [.text (Bytes.line s)] ++ rest =
      Bytes.ofText s ++ (Bytes.crlf ++ rest) := by
    simp [octetsOf, Fragment.octets, Bytes.line]
  have hend : step l (.text goal ((Bytes.ofText s).reverse ++ [])) Bytes.cr =
      .take (.textEnd goal ((Bytes.ofText s).reverse ++ [])) := rfl
  rw [hbytes, scan_run (text_onLine goal) h, scan_finish hend rfl, hw]
  simp [fits, lineAfter, Bytes.line, Bytes.crlf, Nat.add_assoc]

theorem scan_plain (h : bs.head? ≠ some (octet '[')) :
    scan l (.code head) k bs = scan l (.text (.status head none) []) k bs := by
  cases bs with
  | nil => rfl
  | cons b bs =>
    have hb : b ≠ octet '[' := by simpa using h
    rw [scan, scan, step, step, codeStep, if_neg hb]

theorem completes_tail {code : Option (List Token)} {text : String}
    (h : Response.WritableTail code text) :
    Completes l (.gap head) (Response.tailFragments code text)
      (head.response (code.map (Token.allStoredAt l.spill)) text) := by
  have hspace : (step l (.gap head) (octet ' ')).onLine? = some (.code head) := rfl
  cases code with
  | none =>
    refine .octet_cons hspace ?_
    intro k rest
    have hplain : (octetsOf [.text (Bytes.line text)] ++ rest).head? ≠ some (octet '[') := by
      have hp := h.plain rfl
      simp only [octetsOf, Fragment.octets, Bytes.line, List.flatMap_singleton, List.append_assoc]
      cases hb : Bytes.ofText text with
      | nil => exact fun he => absurd (Option.some.inj he) (by decide)
      | cons b bs =>
        rw [hb] at hp
        exact hp
    rw [scan_plain hplain]
    exact completes_text h.octets k rest
  | some ts =>
    have hopen : (step l (.code head) (octet '[')).onLine? =
        some (.tokens ⟨.code head, [], []⟩) := rfl
    have hclose :
        (step l (.tokens (Nest.extend ⟨.code head, [], []⟩ (Token.allStoredAt l.spill ts)))
        (octet ']')).onLine? = some (.codeGap head (Token.allStoredAt l.spill ts)) := by
      change some (Mode.codeGap head ((Token.allStoredAt l.spill ts).reverse ++ []).reverse) = _
      rw [List.append_nil, List.reverse_reverse]
    have hgap : (step l (.codeGap head (Token.allStoredAt l.spill ts)) (octet ' ')).onLine? =
        some (.text (.status head (some (Token.allStoredAt l.spill ts))) []) := rfl
    refine .octet_cons hspace (.octet_cons hopen (.empty (.after (reads_tokens (h.tokens ts rfl))
      (.octet_cons hclose (.octet_cons hgap (completes_text h.octets))) ?_)))
    rintro rest b ⟨⟩
    decide

/-! ### Fronts of responses -/

theorem keyword_onLine (word : Bytes) (b : UInt8) (h : Octet.isAtom b = true) :
    (step l (.keyword word) b).onLine? = some (.keyword (b :: word)) := by
  rw [step, if_pos h]
  rfl

theorem verdict_onLine (tag : Tag) (word : Bytes) (b : UInt8) (h : Octet.isAtom b = true) :
    (step l (.verdict tag word) b).onLine? = some (.verdict tag (b :: word)) := by
  rw [step, if_pos h]
  rfl

theorem tag_onLine (word : Bytes) (b : UInt8) (h : Octet.isTag b = true) :
    (step l (.tag word) b).onLine? = some (.tag (b :: word)) := by
  rw [step, tagStep, if_pos h]
  rfl

theorem scan_keyword {s : String} (hs : s ≠ "") (ha : ∀ b ∈ Bytes.ofText s, Octet.isAtom b = true) :
    scan l .untagged k (Bytes.ofText s ++ rest) =
      scan l (.keyword (Bytes.ofText s).reverse) (k + (Bytes.ofText s).length) rest := by
  obtain ⟨b, bs, he⟩ := List.exists_cons_of_ne_nil (Text.Utf8.ofText_ne_nil hs)
  rw [he] at ha ⊢
  obtain ⟨hb, hbs⟩ := List.forall_mem_cons.mp ha
  have hone : (step l .untagged b).onLine? = some (.keyword [b]) := by
    rw [step, if_pos hb]
    rfl
  rw [List.cons_append, scan_cons hone, scan_run keyword_onLine hbs, ← List.reverse_cons,
    List.length_cons, Nat.add_assoc, Nat.add_comm 1]

/-- A first word that is no status is an atom like any other. -/
theorem scan_keyword_end (hw : noticeOf? word = none)
    (h : ∀ b ∈ rest.head?, Octet.isAtom b = false) :
    scan l (.keyword word) k rest =
      scan l (.tokens ⟨.data, [], [.atom (wordText word)]⟩) k rest := by
  cases rest with
  | nil => rfl
  | cons b rest =>
    have hb : Octet.isAtom b = false := h b rfl
    rw [scan, scan, step, step, hb, hw]
    rfl

theorem scan_untagged_cons (hb : Octet.isAtom b = false) :
    scan l .untagged k (b :: bs) = scan l (.tokens ⟨.data, [], []⟩) k (b :: bs) := by
  rw [scan, scan, step, step, hb]
  rfl

/-- Data that begins with no status is read as tokens from its first octet on. -/
theorem scan_untagged {ts : List Token} (h : ∀ t ∈ ts, t.Writable)
    (hs : ∀ s, ts.head? = some (.atom s) → Status.ofKeyword? s = none)
    (hr : ∀ b ∈ rest.head?, Octet.isAtom b = false) :
    scan l .untagged k (octetsOf (Token.spaced ts) ++ rest) =
      scan l (.tokens ⟨.data, [], []⟩) k (octetsOf (Token.spaced ts) ++ rest) := by
  cases ts with
  | nil =>
    cases rest with
    | nil => rfl
    | cons b bs => exact scan_untagged_cons (hr b rfl)
  | cons t ts =>
    rw [Token.spaced, octetsOf_append, List.append_assoc]
    cases h t List.mem_cons_self with
    | @atom s hn ha =>
      have hword : wordText (Bytes.ofText s).reverse = s := by simp [wordText]
      have hw : noticeOf? (Bytes.ofText s).reverse = none := by
        rw [noticeOf?, hword, hs s rfl]
        rfl
      have hrest := head_following ts hr
      rw [Token.fragments, octetsOf, List.flatMap_singleton, Fragment.octets, scan_keyword hn ha,
        scan_keyword_end hw hrest, hword, scan_atom hn ha hrest]
      rfl
    | quoted => exact scan_untagged_cons (by decide)
    | literal => exact scan_untagged_cons (by decide)
    | list => exact scan_untagged_cons (by decide)

theorem scan_notice_end (hw : noticeOf? word = some head)
    (h : ∀ b ∈ rest.head?, Octet.isAtom b = false) :
    scan l (.keyword word) k rest = scan l (.gap head) k rest := by
  cases rest with
  | nil => rfl
  | cons b rest =>
    have hb : Octet.isAtom b = false := h b rfl
    rw [scan, scan, step, step, hb, hw]
    rfl

theorem scan_verdict_end {tag : Tag} (hw : verdictOf tag word = .ok head)
    (h : ∀ b ∈ rest.head?, Octet.isAtom b = false) :
    scan l (.verdict tag word) k rest = scan l (.gap head) k rest := by
  cases rest with
  | nil => rfl
  | cons b rest =>
    have hb : Octet.isAtom b = false := h b rfl
    rw [scan, scan, step, step, hb, hw]
    rfl

theorem head_tail (code : Option (List Token)) (text : String) (rest : Bytes) :
    ∀ b ∈ (octetsOf (Response.tailFragments code text) ++ rest).head?, Octet.isAtom b = false := by
  cases code with
  | none =>
    rintro b ⟨⟩
    decide
  | some ts =>
    rintro b ⟨⟩
    decide

theorem isAtom_of_mem_keyword (status : Status) :
    ∀ b ∈ Bytes.ofText status.keyword, Octet.isAtom b = true := by
  cases status <;> decide +kernel

theorem ofKeyword?_keyword (status : Status) : Status.ofKeyword? status.keyword = some status := by
  cases status <;> rfl

theorem completes_untagged {fs : List Fragment} (h : Completes l .untagged fs r) :
    Completes l .start (.text [octet '*', octet ' '] :: fs) r := by
  have hstar : (step l .start (octet '*')).onLine? = some .star := rfl
  have hspace : (step l .star (octet ' ')).onLine? = some .untagged := rfl
  exact .octet_cons hstar (.octet_cons hspace h.empty)

theorem completes_data {ts : List Token} (h : ∀ t ∈ ts, t.Writable)
    (hs : ∀ s, ts.head? = some (.atom s) → Status.ofKeyword? s = none) :
    Completes l .untagged (Token.spaced ts ++ [.text Bytes.crlf])
      (.untagged ⟨Token.allStoredAt l.spill ts, none, none⟩) := by
  have hend : Completes l (.tokens (Nest.extend ⟨.data, [], []⟩ (Token.allStoredAt l.spill ts)))
      [.text Bytes.crlf] (.untagged ⟨Token.allStoredAt l.spill ts, none, none⟩) := by
    intro k rest
    have hbytes : octetsOf [.text Bytes.crlf] ++ rest = Bytes.crlf ++ rest := rfl
    rw [hbytes, scan_finish rfl rfl]
    simp [Nest.extend, fits, lineAfter, Bytes.crlf]
  have hcr (rest : Bytes) : ∀ b ∈ (octetsOf [.text Bytes.crlf] ++ rest).head?,
      Octet.isAtom b = false := by
    rintro b ⟨⟩
    decide
  intro k rest
  rw [octetsOf_append, List.append_assoc, scan_untagged h hs (hcr rest), ← List.append_assoc,
    ← octetsOf_append]
  exact Completes.after (reads_tokens h) hend hcr k rest

theorem completes_notice {keyword : String} {code : Option (List Token)} {text : String}
    (ha : (Token.atom keyword).Writable) (hk : (Status.ofKeyword? keyword).isSome)
    (h : Response.WritableTail code text) :
    Completes l .untagged (Token.spaced [.atom keyword] ++ Response.tailFragments code text)
      (.untagged ⟨[.atom keyword], code.map (Token.allStoredAt l.spill), some text⟩) := by
  cases ha with
  | atom hn ha =>
    intro k rest
    have hword : wordText (Bytes.ofText keyword).reverse = keyword := by simp [wordText]
    have hw : noticeOf? (Bytes.ofText keyword).reverse = some (.notice keyword) := by
      rw [noticeOf?, hword, if_pos hk]
    have hbytes :
        octetsOf (Token.spaced [.atom keyword] ++ Response.tailFragments code text) ++ rest =
        Bytes.ofText keyword ++ (octetsOf (Response.tailFragments code text) ++ rest) := by
      simp [Token.spaced, Token.following, Token.fragments, octetsOf, Fragment.octets]
    rw [hbytes, scan_keyword hn ha, scan_notice_end hw (head_tail code text rest),
      completes_tail h]
    rfl

theorem scan_tag {tag : Tag} (hn : tag.text ≠ "")
    (ht : ∀ b ∈ Bytes.ofText tag.text, Octet.isTag b = true)
    (hs : (Bytes.ofText tag.text).head? ≠ some (octet '*')) :
    scan l .start k (Bytes.ofText tag.text ++ octet ' ' :: rest) =
      scan l (.verdict tag []) (k + (Bytes.ofText tag.text).length + 1) rest := by
  have hword : wordText (Bytes.ofText tag.text).reverse = tag.text := by simp [wordText]
  obtain ⟨b, bs, he⟩ := List.exists_cons_of_ne_nil (Text.Utf8.ofText_ne_nil hn)
  rw [he] at ht hs hword ⊢
  obtain ⟨hb, hbs⟩ := List.forall_mem_cons.mp ht
  have hplus : b ≠ octet '+' := by
    rintro rfl
    exact absurd hb (by decide)
  have hstar : b ≠ octet '*' := by simpa using hs
  have hone : (step l .start b).onLine? = some (.tag [b]) := by
    rw [step, if_neg hplus, if_neg hstar, tagStep, if_pos hb]
    rfl
  have hspace : (step l (.tag (b :: bs).reverse) (octet ' ')).onLine? = some (.verdict tag []) := by
    rw [step, tagStep, if_neg (by decide), if_neg (by simp), hword]
    rfl
  rw [List.cons_append, scan_cons hone, scan_run tag_onLine hbs, ← List.reverse_cons,
    scan_cons hspace, List.length_cons]
  congr 1
  omega

theorem scan_verdict {tag : Tag} {status : Status} (h : ∀ b ∈ rest.head?, Octet.isAtom b = false) :
    scan l (.verdict tag []) k (Bytes.ofText status.keyword ++ rest) =
      scan l (.gap (.completion tag status)) (k + (Bytes.ofText status.keyword).length) rest := by
  have hn : (Bytes.ofText status.keyword).reverse.isEmpty = false := by cases status <;> decide
  have hv : verdictOf tag (Bytes.ofText status.keyword).reverse = .ok (.completion tag status) := by
    rw [verdictOf, hn, wordText, List.reverse_reverse, Text.Utf8.text_ofText, ofKeyword?_keyword]
    rfl
  rw [scan_run (verdict_onLine tag) (isAtom_of_mem_keyword status), List.append_nil,
    scan_verdict_end hv h]

theorem completes_completion {tag : Tag} {status : Status} {code : Option (List Token)}
    {text : String} (hn : tag.text ≠ "") (ht : ∀ b ∈ Bytes.ofText tag.text, Octet.isTag b = true)
    (hs : (Bytes.ofText tag.text).head? ≠ some (octet '*')) (h : Response.WritableTail code text) :
    Completes l .start (.text (Bytes.ofText tag.text ++ octet ' ' :: Bytes.ofText status.keyword) ::
        Response.tailFragments code text)
      (.tagged tag status (code.map (Token.allStoredAt l.spill)) text) := by
  intro k rest
  have hbytes :
      octetsOf (.text (Bytes.ofText tag.text ++ octet ' ' :: Bytes.ofText status.keyword) ::
        Response.tailFragments code text) ++ rest =
      Bytes.ofText tag.text ++ octet ' ' :: (Bytes.ofText status.keyword ++
        (octetsOf (Response.tailFragments code text) ++ rest)) := by
    simp [octetsOf, Fragment.octets]
  have hlength : k + (Bytes.ofText tag.text).length + 1 + (Bytes.ofText status.keyword).length =
      k + (Bytes.ofText tag.text ++ octet ' ' :: Bytes.ofText status.keyword).length := by
    rw [List.length_append, List.length_cons]
    omega
  rw [hbytes, scan_tag hn ht hs, scan_verdict (head_tail code text rest), completes_tail h, hlength]
  rfl

/-! ### Whole responses -/

theorem completes_response (h : r.Writable) :
    Completes l .start r.fragments (r.storedAt l.spill) := by
  cases h with
  | continuation ht =>
    have hplus : (step l .start (octet '+')).onLine? = some .plus := rfl
    have hspace : (step l .plus (octet ' ')).onLine? = some (.text .continuation []) := rfl
    exact .octet_cons hplus (.octet_cons hspace (completes_text ht))
  | data ht hs => exact completes_untagged (completes_data ht hs)
  | notice ha hk ht => exact completes_untagged (completes_notice ha hk ht)
  | completion hn ht hs hc => exact completes_completion hn ht hs hc

/-- Whether a rendered response is found depends on the length of its lines alone. -/
theorem scan_rendered (h : r.Writable) (l : Limits) (rest : Bytes) :
    scan l .start 0 (r.octets ++ rest) =
      if ∀ s ∈ r.segments, s.length ≤ l.line then some (r.storedAt l.spill, rest) else none := by
  refine (completes_response h 0 rest).trans ?_
  simp only [Response.segments, segments_fit, List.length_nil]

variable {deadline now : Duration} {buffer : Bytes} {pieces : List Bytes}

theorem pull_of_fitting (h : r.Writable) (hb : buffer ++ pieces.flatten = r.octets ++ rest)
    (hl : ∀ s ∈ r.segments, s.length ≤ l.line) :
    ∃ j, (Wire.Inbox.ofPieces buffer pieces).pull (framing l) deadline now =
      (.item (r.storedAt l.spill), j, now) ∧ j.content = rest := by
  have hc : consume l initial (buffer ++ pieces.flatten) = .done (r.storedAt l.spill) rest := by
    rw [consume_eq_done_iff, hb]
    exact (scan_rendered h l rest).trans (if_pos hl)
  obtain ⟨left, later, hp, hr⟩ := Wire.Inbox.pull_of_consume seamless hc
  exact ⟨_, hp, (Wire.Inbox.content_ofPieces left later).trans hr⟩

/-- With room for its lines the response would be read, so a line that is too long is all that can
be found wrong with it. -/
theorem pull_of_overlong (h : r.Writable) (hb : buffer ++ pieces.flatten = r.octets ++ rest)
    (hl : ∃ s ∈ r.segments, l.line < s.length) :
    ∃ position, ((Wire.Inbox.ofPieces buffer pieces).pull (framing l) deadline now).1 =
      .broken (.malformed position (.lineTooLong l.line)) := by
  have hroom : ∀ s ∈ r.segments, s.length ≤ (r.segments.map List.length).max?.getD 0 :=
    fun s hs => List.le_max?_getD_of_mem (List.mem_map_of_mem hs)
  let wide : Limits := ⟨max l.line ((r.segments.map List.length).max?.getD 0), l.spill⟩
  have hwide : ∀ s ∈ r.segments, s.length ≤ wide.line :=
    fun s hs => Nat.le_trans (hroom s hs) (Nat.le_max_right _ _)
  rcases pull_tighter (show l.spill = wide.spill from rfl) (Nat.le_max_left _ _)
    (Wire.Inbox.ofPieces buffer pieces) deadline now with hp | hp
  · obtain ⟨j, hj, -⟩ := pull_of_fitting h hb hwide
    have hd := Wire.Inbox.consume_of_pull seamless (hp.trans hj)
    rw [Wire.Inbox.content_ofPieces, hb] at hd
    have hscan := consume_eq_done_iff.mp hd
    obtain ⟨s, hs, hlong⟩ := hl
    have hfit := scan_rendered h l rest
    rw [if_neg fun hall => Nat.not_le_of_lt hlong (hall s hs)] at hfit
    cases hscan.symm.trans hfit
  · exact hp

/-- A rendered response is read from any pieces, up to its last octet, if its lines are within the
limit. Otherwise just this is found wrong. -/
theorem pull_rendered (h : r.Writable) (hb : buffer ++ pieces.flatten = r.octets ++ rest) :
    ((∀ s ∈ r.segments, s.length ≤ l.line) →
      ∃ j, (Wire.Inbox.ofPieces buffer pieces).pull (framing l) deadline now =
        (.item (r.storedAt l.spill), j, now) ∧ j.content = rest) ∧
    ((∃ s ∈ r.segments, l.line < s.length) →
      ∃ position, ((Wire.Inbox.ofPieces buffer pieces).pull (framing l) deadline now).1 =
        .broken (.malformed position (.lineTooLong l.line))) :=
  ⟨pull_of_fitting h hb, pull_of_overlong h hb⟩

/-- A group with a line end in a literal, cut in the middle of both line ends of its own. -/
theorem pull_rendered_group :
    (Response.untagged ⟨[.list [.atom "a", .literal ⟨Bytes.crlf, false⟩]], none, none⟩).Writable ∧
    ∃ j, (Wire.Inbox.ofPieces [] [Bytes.ofText "* (a \x7b2\x7d\r", Bytes.ofText "\n\r\n)\r",
        Bytes.ofText "\n*"]).pull (framing ⟨10, 0⟩) 0 0 =
      (.item (.untagged ⟨[.list [.atom "a", .literal ⟨Bytes.crlf, true⟩]], none, none⟩), j, 0) ∧
      j.content = [octet '*'] := by
  have hw : (Response.untagged
      ⟨[.list [.atom "a", .literal ⟨Bytes.crlf, false⟩]], none, none⟩).Writable := by
    refine .data ?_ (by simp)
    rintro t (_ | ⟨_, ⟨⟩⟩)
    refine .list ?_
    rintro t (_ | ⟨_, _ | ⟨_, ⟨⟩⟩⟩)
    · exact .atom (by decide) (by decide +kernel)
    · exact .literal (by decide)
  have hb : ([] : Bytes) ++ [Bytes.ofText "* (a \x7b2\x7d\r", Bytes.ofText "\n\r\n)\r",
      Bytes.ofText "\n*"].flatten = (Response.untagged
        ⟨[.list [.atom "a", .literal ⟨Bytes.crlf, false⟩]], none, none⟩).octets ++ [octet '*'] := by
    rfl
  exact ⟨hw, (pull_rendered hw hb).1 (by decide +kernel)⟩

end MailClient.Imap.Parse
