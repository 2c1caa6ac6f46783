import MailClient.Proofs.Imap.Correlation
import MailClient.Proofs.Imap.Encoding

/-! How the literals of a command reach a server that has to ask for them. Each request is answered
with one chunk, nothing else goes out before the last of them, and none goes out once the command
has been completed. -/
namespace MailClient.Imap

namespace Incident

/-- Octets of the command that was sent under the tag. -/
def owned (tag : Tag) (i : Incident) : Bytes :=
  if i.opens tag || i.hands tag then i.octets else []

def Puts (entry : Entry) (bytes : Bytes) (i : Incident) : Prop :=
  i = .wrote entry bytes ∨ ∃ count, i = .cut entry bytes count

/-- The command under the tag is over, or the connection is. -/
def ends (tag : Tag) (i : Incident) : Bool := i.completes tag || i.isUpset

end Incident

def requests (incidents : List Incident) : Nat := incidents.countP Incident.isRequest

/-- How many chunks after the first have been begun. -/
def handedOver (tag : Tag) (incidents : List Incident) : Nat :=
  incidents.countP (Incident.hands tag)

def ownedOctets (tag : Tag) (incidents : List Incident) : Bytes :=
  incidents.flatMap (Incident.owned tag)

inductive Delivers (tag : Tag) : List Bytes → List Incident → Prop where
  | nil {chunks : List Bytes} : Delivers tag chunks []
  /-- Nothing that concerns the command. -/
  | other {chunks : List Bytes} {i : Incident} {rest : List Incident} : i.written? = none →
      i.isRequest = false → i.ends tag = false → Delivers tag chunks rest →
      Delivers tag chunks (i :: rest)
  | chunk {text : String} {next : Bytes} {later : List Bytes} {rest : List Incident} :
      Delivers tag later rest →
      Delivers tag (next :: later)
        (.heard (.continuation text) :: .wrote (.chunk tag next) next :: rest)
  | cut {text : String} {next : Bytes} {later : List Bytes} {count : Nat} {rest : List Incident} :
      (∀ i ∈ rest, i.isTraffic = false) →
      Delivers tag (next :: later)
        (.heard (.continuation text) :: .cut (.chunk tag next) next count :: rest)
  | ended {chunks : List Bytes} {i : Incident} {rest : List Incident} : i.written? = none →
      i.isRequest = false → i.ends tag = true → (∀ j ∈ rest, j.hands tag = false) →
      Delivers tag chunks (i :: rest)
  | done {rest : List Incident} : (∀ j ∈ rest, j.hands tag = false) → Delivers tag [] rest

variable {tag : Tag} {chunks : List Bytes} {i j : Incident} {life : List Incident}

theorem hands_of_silent (h : i.isTraffic = false) : i.hands tag = false := by
  cases i with
  | wrote | cut => cases h
  | _ => rfl

theorem hands_of_unwritten (h : i.written? = none) : i.hands tag = false := by
  simp [Incident.hands, h]

/-- Where no command and no chunk of the tag goes out, nothing is owned. -/
theorem ownedOctets_eq_nil {incidents : List Incident}
    (ho : ∀ i ∈ incidents, i.opens tag = false) (hh : ∀ i ∈ incidents, i.hands tag = false) :
    ownedOctets tag incidents = [] := by
  rw [ownedOctets, List.flatMap_eq_nil_iff]
  intro i hi
  simp [Incident.owned, ho i hi, hh i hi]

theorem requests_request (text : String) (incidents : List Incident) :
    requests (.heard (.continuation text) :: incidents) = requests incidents + 1 :=
  List.countP_cons_of_pos rfl

theorem owned_unwritten (h : i.written? = none) : i.owned tag = [] := by
  simp [Incident.owned, Incident.opens, hands_of_unwritten h, h]

theorem ownedOctets_unwritten {incidents : List Incident} (h : i.written? = none) :
    ownedOctets tag (i :: incidents) = ownedOctets tag incidents := by
  rw [ownedOctets, List.flatMap_cons, owned_unwritten h, List.nil_append, ownedOctets]

theorem handedOver_cons (i : Incident) (incidents : List Incident) :
    handedOver tag (i :: incidents) = handedOver tag [i] + handedOver tag incidents := by
  rw [handedOver, ← List.singleton_append, List.countP_append, ← handedOver, ← handedOver]

theorem handedOver_unwritten {incidents : List Incident} (h : i.written? = none) :
    handedOver tag (i :: incidents) = handedOver tag incidents :=
  List.countP_cons_of_neg (by simp [hands_of_unwritten h])

theorem handedOver_chunk (bytes : Bytes) (incidents : List Incident) :
    handedOver tag (.wrote (.chunk tag bytes) bytes :: incidents) = handedOver tag incidents + 1 :=
  List.countP_cons_of_pos (by simp [Incident.hands, Incident.written?])

/-- After each request at most one more chunk has gone out. -/
theorem Delivers.owned_prefix {p : List Incident} (h : Delivers tag chunks life)
    (ho : ∀ i ∈ life, i.opens tag = false) (hp : p <+: life) :
    ownedOctets tag p <+: (chunks.take (requests p)).flatten := by
  induction h generalizing p with
  | nil =>
    rw [List.prefix_nil.mp hp]
    exact List.nil_prefix
  | @other _ i rest hw hr _ _ ih =>
    rcases List.prefix_cons_iff.mp hp with rfl | ⟨p, rfl, hp'⟩
    · exact List.nil_prefix
    · have unasked : requests (i :: p) = requests p := List.countP_cons_of_neg (by simp [hr])
      rw [ownedOctets_unwritten hw, unasked]
      exact ih (fun i hi => ho i (List.mem_cons_of_mem _ hi)) hp'
  | @chunk text next later rest _ ih =>
    rcases List.prefix_cons_iff.mp hp with rfl | ⟨p₁, rfl, hp₁⟩
    · exact List.nil_prefix
    rw [ownedOctets_unwritten rfl, requests_request]
    rcases List.prefix_cons_iff.mp hp₁ with rfl | ⟨p, rfl, hp₂⟩
    · exact List.nil_prefix
    · have others : ∀ i ∈ rest, i.opens tag = false := fun i hi => ho i (by simp [hi])
      have rested := ih others hp₂
      have owned : ownedOctets tag (.wrote (.chunk tag next) next :: p) =
          next ++ ownedOctets tag p := by
        simp [ownedOctets, Incident.owned, Incident.hands, Incident.written?, Incident.octets]
      have asked : requests (.wrote (.chunk tag next) next :: p) = requests p :=
        List.countP_cons_of_neg (by simp [Incident.isRequest])
      rw [owned, asked, List.take_succ_cons, List.flatten_cons]
      exact (List.prefix_append_right_inj next).mpr rested
  | @cut text next later count rest hs =>
    rcases List.prefix_cons_iff.mp hp with rfl | ⟨p₁, rfl, hp₁⟩
    · exact List.nil_prefix
    rw [ownedOctets_unwritten rfl, requests_request]
    rcases List.prefix_cons_iff.mp hp₁ with rfl | ⟨p, rfl, hp₂⟩
    · exact List.nil_prefix
    · have nothing : ownedOctets tag p = [] := by
        refine ownedOctets_eq_nil (fun i hi => ?_) fun i hi => ?_
        · exact ho i (by simp [hp₂.subset hi])
        · exact hands_of_silent (hs i (hp₂.subset hi))
      have owned : ownedOctets tag (.cut (.chunk tag next) next count :: p) = next.take count := by
        have cut : (Incident.cut (.chunk tag next) next count).owned tag = next.take count := by
          simp [Incident.owned, Incident.hands, Incident.written?, Incident.octets]
        rw [ownedOctets, List.flatMap_cons, cut, ← ownedOctets, nothing, List.append_nil]
      rw [owned, List.take_succ_cons, List.flatten_cons]
      exact (List.take_prefix count next).trans (List.prefix_append _ _)
  | @ended _ i rest hw _ _ hh =>
    have unhanded : ∀ j ∈ p, j.hands tag = false := by
      intro j hj
      rcases List.mem_cons.mp (hp.subset hj) with rfl | hj
      · exact hands_of_unwritten hw
      · exact hh j hj
    rw [ownedOctets_eq_nil (fun i hi => ho i (hp.subset hi)) unhanded]
    exact List.nil_prefix
  | done hh =>
    rw [ownedOctets_eq_nil (fun i hi => ho i (hp.subset hi)) fun i hi => hh i (hp.subset hi)]
    exact List.nil_prefix

variable {p rest : List Incident} {text : String} {next : Bytes}

inductive Answers (tag : Tag) : List Bytes → List Incident → Prop where
  | chunk {next : Bytes} {later : List Bytes} {rest : List Incident} : Delivers tag later rest →
      Answers tag (next :: later) (.wrote (.chunk tag next) next :: rest)
  | cut {next : Bytes} {later : List Bytes} {count : Nat} {rest : List Incident} :
      (∀ i ∈ rest, i.isTraffic = false) →
      Answers tag (next :: later) (.cut (.chunk tag next) next count :: rest)

theorem Delivers.tail (h : Delivers tag chunks (i :: rest)) (hi : i.ends tag = false) :
    Delivers tag (chunks.drop (handedOver tag [i])) rest ∨
      Answers tag (chunks.drop (handedOver tag [i])) rest := by
  cases h with
  | other hw _ _ hd =>
    rw [handedOver_unwritten hw]
    exact .inl hd
  | chunk hd =>
    rw [handedOver_unwritten rfl]
    exact .inr (.chunk hd)
  | cut hs =>
    rw [handedOver_unwritten rfl]
    exact .inr (.cut hs)
  | ended _ _ he =>
    rw [hi] at he
    cases he
  | done hh =>
    rw [List.drop_nil]
    exact .inl (.done fun j hj => hh j (List.mem_cons_of_mem _ hj))

theorem Answers.tail (h : Answers tag chunks (i :: rest)) (hi : i.ends tag = false) :
    Delivers tag (chunks.drop (handedOver tag [i])) rest := by
  cases h with
  | chunk hd =>
    rw [handedOver_chunk]
    exact hd
  | cut => simp [Incident.ends, Incident.isUpset] at hi

/-- Until the command is over, what has been handed over is what is no longer left. -/
theorem delivers_after (h : Delivers tag chunks (p ++ rest) ∨ Answers tag chunks (p ++ rest))
    (hp : ∀ i ∈ p, i.ends tag = false) :
    Delivers tag (chunks.drop (handedOver tag p)) rest ∨
      Answers tag (chunks.drop (handedOver tag p)) rest := by
  induction p generalizing chunks with
  | nil => exact h
  | cons i p ih =>
    have hi := hp i List.mem_cons_self
    have further : Delivers tag (chunks.drop (handedOver tag [i])) (p ++ rest) ∨
        Answers tag (chunks.drop (handedOver tag [i])) (p ++ rest) := by
      rcases h with h | h
      · exact h.tail hi
      · exact .inl (h.tail hi)
    rw [handedOver_cons, ← List.drop_drop]
    exact ih further fun j hj => hp j (List.mem_cons_of_mem _ hj)

/-- As long as chunks are left, a request is answered with the next one, in full or as far as the
peer accepts it. -/
theorem Delivers.answered (h : Delivers tag chunks (p ++ .heard (.continuation text) :: rest))
    (hp : ∀ i ∈ p, i.ends tag = false) (hn : chunks[handedOver tag p]? = some next) :
    ∃ answer after, rest = answer :: after ∧ answer.Puts (.chunk tag next) next ∧
      (answer.isUpset = true → ∀ i ∈ after, i.isTraffic = false) := by
  obtain ⟨later, left⟩ : ∃ later, chunks.drop (handedOver tag p) = next :: later := by
    obtain ⟨hlt, rfl⟩ := List.getElem?_eq_some_iff.mp hn
    exact ⟨_, List.drop_eq_getElem_cons hlt⟩
  have follows := delivers_after (.inl h) hp
  rw [left] at follows
  rcases follows with follows | follows
  · cases follows with
    | other _ hr => cases hr
    | chunk => exact ⟨_, _, rfl, .inl rfl, fun hu => by cases hu⟩
    | cut hs => exact ⟨_, _, rfl, .inr ⟨_, rfl⟩, fun _ => hs⟩
    | ended _ hr => cases hr
  · cases follows

/-- As long as chunks are left, nothing else goes out. -/
theorem Delivers.alone (h : Delivers tag chunks (p ++ i :: rest))
    (hp : ∀ i ∈ p, i.ends tag = false) (hn : handedOver tag p < chunks.length)
    (hi : i.written?.isSome = true) : i.hands tag = true := by
  have unfinished : chunks.drop (handedOver tag p) ≠ [] := by simpa using hn
  have follows := delivers_after (.inl h) hp
  generalize chunks.drop (handedOver tag p) = left at unfinished follows
  rcases follows with follows | follows
  · cases follows with
    | other hw | ended hw => simp [hw] at hi
    | chunk | cut => cases hi
    | done => exact (unfinished rfl).elim
  · cases follows with
    | chunk | cut => simp [Incident.hands, Incident.written?]

/-- Once the command is completed or the connection is upset, no chunk goes out. -/
theorem Delivers.stops (h : Delivers tag chunks life) (hl : life = p ++ i :: rest)
    (hi : i.ends tag = true) : ∀ j ∈ rest, j.hands tag = false := by
  induction h generalizing p with
  | nil => simp at hl
  | other _ _ he _ ih =>
    cases p with
    | nil =>
      cases hl
      rw [he] at hi
      cases hi
    | cons x p =>
      cases hl
      exact ih rfl
  | chunk _ ih =>
    rcases p with _ | ⟨x, _ | ⟨y, p⟩⟩
    · cases hl
      cases hi
    · cases hl
      cases hi
    · cases hl
      exact ih rfl
  | cut hs =>
    rcases p with _ | ⟨x, _ | ⟨y, p⟩⟩
    · cases hl
      cases hi
    · cases hl
      exact fun j hj => hands_of_silent (hs j hj)
    · cases hl
      exact fun j hj => hands_of_silent (hs j (by simp [hj]))
  | ended _ _ _ hh =>
    cases p with
    | nil =>
      cases hl
      exact hh
    | cons x p =>
      cases hl
      exact fun j hj => hh j (by simp [hj])
  | done hh =>
    rw [hl] at hh
    exact fun j hj => hh j (by simp [hj])

/-! ### Courses -/

/-- What happens until another command goes out under the tag. -/
def tenure (tag : Tag) (incidents : List Incident) : List Incident :=
  incidents.takeWhile fun i => !i.opens tag

namespace Connection

variable {free : Prop} {c c' : Connection} {incidents later : List Incident} {t : Transfer}

/-- Chunks go out only for the command whose literal waits. -/
theorem waits_of_hands (h : Step free c incidents c') (hm : i ∈ incidents)
    (hi : i.hands tag = true) : ∃ t ∈ c.pending, t.tag = tag := by
  have excluded (ho : ∀ j ∈ incidents, j.hands tag = false) : False := by
    rw [ho i hm] at hi
    cases hi
  cases h with
  | command => exact (excluded (by simp [Incident.hands, written_writing])).elim
  | line => exact (excluded (by simp [Incident.hands, written_writing])).elim
  | unheard => exact (excluded (by simp [Incident.hands, written_hearing])).elim
  | @chunk _ _ c₁ t hu hr hp =>
    refine ⟨t, waits_of_receive hr hp, ?_⟩
    rcases List.mem_cons.mp hm with rfl | hm
    · cases hi
    · rw [List.mem_singleton.mp hm] at hi
      simpa [Incident.hands, written_writing] using hi
  | _ => exact (excluded (by simp [Incident.hands])).elim

/-- A literal begins to wait only with its command. -/
theorem pending_step (h : Step free c incidents c') (hp : ∀ t ∈ c.pending, t.tag ≠ tag)
    (ho : ∀ i ∈ incidents, i.opens tag = false) : ∀ t ∈ c'.pending, t.tag ≠ tag := by
  cases h with
  | @command opened command hu ht hn =>
    have hne : opened ≠ tag := by
      simpa [Incident.opens, written_writing] using ho _ (List.mem_singleton.mpr rfl)
    obtain ⟨_, -, ⟨-, hs⟩ | ⟨_, _, -, hs⟩⟩ := @send_cases c opened command hu ht hn
    · rw [hs]
      intro t hq
      rw [(Transfer.mem_ofChunks.mp hq).1]
      exact hne
    · rw [hs]
      exact hp
  | line hu =>
    rw [sendLine_of_usable hu, (write_books _ _ c).2]
    exact hp
  | unheard hu hr =>
    rw [(receive_books hr).2]
    exact hp
  | @chunk _ _ c₁ t hu hr hw =>
    have ht := hp t (waits_of_receive hr hw)
    rw [(sendChunk_books t c₁).2]
    intro t' hq
    rw [(Transfer.mem_ofChunks.mp hq).1]
    exact ht
  | response hu hr _ hs =>
    rw [(settle_books hs).2, (receive_books hr).2]
    intro t hq
    exact hp t (Option.mem_filter_iff.mp hq).1
  | stray hu hr hs =>
    obtain ⟨_, rfl⟩ := receive_ok hr
    obtain ⟨rfl, -⟩ := settle_stray hs
    exact hp
  | _ => exact hp

theorem tenure_append (ho : ∀ i ∈ incidents, i.opens tag = false) :
    tenure tag (incidents ++ later) = incidents ++ tenure tag later :=
  List.takeWhile_append_of_pos fun i hi => by simp [ho i hi]

theorem mem_of_mem_tenure (h : i ∈ tenure tag incidents) : i ∈ incidents :=
  (List.takeWhile_prefix _).subset h

/-- A step either has nothing to do with a new command under the tag, or is all about it. -/
theorem opens_step (h : Step free c incidents c') (later : List Incident) :
    (∀ i ∈ incidents, i.opens tag = false) ∨ tenure tag (incidents ++ later) = [] := by
  by_cases ho : ∃ i ∈ incidents, i.opens tag = true
  · obtain ⟨i, hm, hi⟩ := ho
    obtain ⟨front, back, rfl⟩ := List.append_of_mem hm
    obtain ⟨rfl, -⟩ := step_of_opens h hi
    exact .inr (List.takeWhile_cons_of_neg (by simp [hi]))
  · exact .inl (by simpa using ho)

/-- Where no literal of the tag waits, no chunk goes out under it before its next command. -/
theorem quiet_course (h : Course free c incidents c') (hp : ∀ t ∈ c.pending, t.tag ≠ tag) :
    ∀ i ∈ tenure tag incidents, i.hands tag = false := by
  induction h with
  | refl => simp [tenure]
  | @step c first c₁ later c' hs _ ih =>
    rcases opens_step hs later with ho | hn
    · rw [tenure_append ho]
      intro i hi
      rcases List.mem_append.mp hi with hi | hi
      · rw [Bool.eq_false_iff]
        intro hh
        obtain ⟨t, ht, rfl⟩ := waits_of_hands hs hi hh
        exact hp t ht rfl
      · exact ih (pending_step hs hp ho) i hi
    · rw [hn]
      simp

/-- An upset ends everything. -/
theorem quiet_of_unusable (h : Course free c incidents c') (hu : c.usable = false) :
    ∀ i ∈ tenure tag incidents, i.isTraffic = false :=
  fun i hi => (silent_course h hu).1 i (mem_of_mem_tenure hi)

theorem ends_heard (r : Response) : (Incident.heard r).ends tag = (r.tag? == some tag) := by
  rw [Incident.ends, completes_heard]
  exact Bool.or_false _

/-- An upset in which nothing was to be written leaves the rest of the chunks where they are. -/
theorem delivers_upset (hw : i.written? = none) (hr : i.isRequest = false) (hi : i.isUpset = true)
    (h : Course free c later c') (hu : c.usable = false) :
    Delivers tag chunks (i :: tenure tag later) := by
  refine .ended hw hr ?_ fun j hj => hands_of_silent (quiet_of_unusable h hu j hj)
  rw [Incident.ends, hi, Bool.or_true]

/-- Chunks wait on until the command is completed. -/
theorem pending_settle {r r' : Response} (h : settle r c = (.ok r', c'))
    (hp : c.pending = some t) :
    c'.pending = if r.tag? = some t.tag then none else some t := by
  rw [(settle_books h).2, hp, Option.filter_some]
  by_cases hr : r.tag? = some t.tag
  · simp [hr]
  · simp [hr]

/-- What follows on a connection on which `chunks` of a command wait. -/
theorem delivers_course (h : Course False c incidents c') (hu : c.usable = true)
    (hp : c.pending = Transfer.ofChunks tag chunks) (ht : tag ∈ c.outstanding) :
    Delivers tag chunks (tenure tag incidents) := by
  induction h generalizing chunks with
  | refl => exact .nil
  | @step c first c₁ later c' hs hc ih =>
    cases chunks with
    | nil =>
      refine .done (quiet_course (.step hs hc) ?_)
      rw [hp]
      simp [Transfer.ofChunks]
    | cons next rest =>
      have waits : c.pending = some ⟨tag, next, rest⟩ := hp
      have blocked {p : Prop} (hn : c.pending = none) : p := by
        rw [waits] at hn
        cases hn
      have unopened : ∀ i ∈ first, i.opens tag = false := by
        intro i hi
        rw [Bool.eq_false_iff]
        intro ho
        obtain ⟨front, back, rfl⟩ := List.append_of_mem hi
        obtain ⟨-, -, -, -, hn, -⟩ := step_of_opens hs ho
        exact blocked hn
      rw [tenure_append unopened]
      cases hs with
      | tag => exact ih hu hp ht
      | pause => exact ih hu hp ht
      | greeted => exact ih hu hp ht
      | secured => exact ih hu hp ht
      | command _ _ hn => exact blocked hn
      | line _ hn => exact blocked (hn.resolve_left id)
      | unheard _ hr =>
        obtain ⟨_, -, ⟨hlabel, rfl⟩ | ⟨hlabel, rfl⟩⟩ := hearing_error hr
        · rw [hlabel]
          exact delivers_upset rfl rfl rfl hc rfl
        · rw [hlabel]
          exact .other rfl rfl rfl (ih hu hp ht)
      | @chunk limit text c₂ t _ hr hw =>
        obtain rfl : ⟨tag, next, rest⟩ = t :=
          Option.some.inj (waits.symm.trans (waits_of_receive hr hw))
        obtain ⟨_, rfl⟩ := receive_ok hr
        obtain ⟨_, ⟨hlabel, hs⟩ | ⟨_, _, hlabel, hs⟩⟩ := sendChunk_cases ⟨tag, next, rest⟩
          ({ c with stream := _ }.record (.response (.continuation text)))
        · rw [hlabel]
          rw [hs] at ih
          exact .chunk (ih hu rfl ht)
        · rw [hlabel]
          rw [hs] at hc
          exact .cut (quiet_of_unusable hc rfl)
      | @response _ r _ _ _ hr hq hs =>
        obtain ⟨_, rfl⟩ := receive_ok hr
        have answer : (Incident.heard r).isRequest = false := by
          rw [Bool.eq_false_iff]
          exact fun hreq => blocked (hq hreq)
        have left := pending_settle hs waits
        by_cases hr : r.tag? = some tag
        · rw [if_pos hr] at left
          refine .ended rfl answer (by simp [ends_heard, hr]) (quiet_course hc ?_)
          rw [left]
          simp
        · rw [if_neg hr] at left
          refine .other rfl answer (by simp [ends_heard, hr]) (ih ?_ left ?_)
          · obtain ⟨-, -, _, _, -, hc₁⟩ := settle_ok hs
            rw [hc₁]
            exact hu
          · rw [(settle_books hs).1, mem_unsettled]
            exact ⟨ht, hr⟩
      | @stray _ r _ _ _ _ hr hs =>
        obtain ⟨_, rfl⟩ := receive_ok hr
        obtain ⟨rfl, stranger, htag, hout, rfl⟩ := settle_stray hs
        have hne : stranger ≠ tag := fun he => hout (he ▸ ht)
        have answer : (Incident.heard r).isRequest = false := by
          cases r with
          | continuation => cases htag
          | _ => rfl
        refine .other rfl answer (by simp [ends_heard, htag, hne]) ?_
        exact delivers_upset rfl rfl rfl hc rfl
      | misfit v => exact delivers_upset rfl rfl rfl hc rfl
      | close => exact delivers_upset rfl rfl rfl hc rfl

theorem delivers_of_silent (h : ∀ i ∈ life, i.isTraffic = false) : Delivers tag chunks life := by
  cases life with
  | nil => exact .nil
  | cons i rest =>
    have quiet : ∀ j ∈ rest, j.hands tag = false := fun j hj =>
      hands_of_silent (h j (List.mem_cons_of_mem _ hj))
    have hi := h i List.mem_cons_self
    cases i with
    | misfit => exact .ended rfl rfl rfl quiet
    | closed => exact .ended rfl rfl rfl quiet
    | _ => cases hi

/-- What follows the first chunk of a command whose literals wait. -/
theorem delivers_of_puts {command : Command} {before after : List Incident}
    (h : Course False c (before ++ i :: after) c')
    (hi : i.Puts (.command tag command) (command.encode tag true).first) :
    Delivers tag (command.encode tag true).later (tenure tag after) := by
  have opens : i.opens tag = true := by
    rcases hi with rfl | ⟨_, rfl⟩ <;> simp [Incident.opens, Incident.written?]
  obtain ⟨past, front, c₁, back, c₂, future, rfl, rfl, -, hstep, hfuture⟩ := h.split
  obtain ⟨rfl, rfl, hu, ht, hp, sent, hlabel, rfl⟩ := step_of_opens hstep opens
  obtain ⟨_, -, ⟨hw, hs⟩ | ⟨_, _, hw, hs⟩⟩ := @send_cases c₁ tag sent hu ht hp
  · rw [hs] at hfuture
    rw [hlabel, hw] at hi
    obtain ⟨rfl, first⟩ : sent = command ∧
        (c₁.encoding tag sent).first = (command.encode tag true).first := by
      rcases hi with hi | ⟨_, hi⟩
      · rw [Incident.wrote.injEq, Entry.command.injEq] at hi
        exact ⟨hi.1.2, hi.2⟩
      · cases hi
    have later : (c₁.encoding tag sent).later = (sent.encode tag true).later := by
      unfold encoding at first ⊢
      cases hwaits : !(c₁.literalPlus && c₁.hasCapability "LITERAL+") with
      | true => rfl
      | false =>
        rw [hwaits] at first
        rw [Command.later_eq_nil_of_first_eq sent tag first]
        exact Command.later_chunksAfter_false _ _
    rw [List.nil_append]
    exact delivers_course hfuture hu (congrArg (Transfer.ofChunks tag) later) (by simp [record])
  · rw [hs] at hfuture
    exact delivers_of_silent (quiet_of_unusable hfuture rfl)

/-! ### Requests that a caller sees -/

def queue (c : Connection) : List (Tag × Bytes) :=
  match c.pending with
  | some t => t.chunks.map fun bytes => (t.tag, bytes)
  | none => []

def exchanges (answered : List (String × Tag × Bytes)) : List Incident :=
  answered.flatMap fun (text, tag, bytes) =>
    [.heard (.continuation text), .wrote (.chunk tag bytes) bytes]

theorem queue_ofChunks {chunks : List Bytes} (h : c.pending = Transfer.ofChunks tag chunks) :
    c.queue = chunks.map fun bytes => (tag, bytes) := by
  unfold queue
  rw [h]
  cases chunks with
  | nil => rfl
  | cons next later => rfl

/-- A caller sees a request only when no chunk is left: those before it have each released one, in
their order, and were not handed on. -/
structure Drained (c : Connection) (text : String) (c' : Connection) : Prop where
  pending : c'.pending = none
  requests : ∃ answered, answered.map Prod.snd = c.queue ∧
    Course False c (exchanges answered ++ [.heard (.continuation text)]) c'

theorem drained_of_nextResponse {limit : Duration} {text : String} (hu : c.usable = true)
    (h : nextResponse limit c = (.ok (.continuation text), c')) : Drained c text c' := by
  fun_induction nextResponse limit c with
  | case1 => cases h
  | case2 => cases h
  | case3 c c₁ asked t hr hp c₂ hs _ _ ih =>
    have step : Step False c _ _ := .chunk hu hr hp
    have waits := waits_of_receive hr hp
    obtain ⟨_, rfl⟩ := receive_ok hr
    obtain ⟨_, ⟨hlabel, hw⟩ | ⟨_, _, -, hw⟩⟩ := sendChunk_cases t
      ({ c with stream := _ }.record (.response (.continuation asked)))
    · rw [hw] at hs
      cases hs
      obtain ⟨drained, answered, hanswered, course⟩ := ih hu h
      rw [hw, hlabel] at step
      have together := Course.step step course
      refine ⟨drained, (asked, t.tag, t.next) :: answered, ?_, by simpa [exchanges] using together⟩
      have whole : c.queue = t.chunks.map fun bytes => (t.tag, bytes) := by rw [queue, waits]
      rw [List.map_cons, hanswered, whole]
      exact congrArg ((t.tag, t.next) :: ·) (queue_ofChunks rfl)
    · rw [hw] at hs
      cases hs
  | case4 c c₁ r hr hn _ =>
    obtain ⟨rfl, -⟩ := settle_ok h
    have none : c₁.pending = none := by
      cases hp : c₁.pending with
      | none => rfl
      | some t => exact (hn text t hr rfl hp HEq.rfl).elim
    have received : c₁.pending = c.pending := by rw [← pending_receive limit c, hr]
    refine ⟨?_, [], ?_, .single (.response hu hr (fun _ => none) h)⟩
    · rw [(settle_books h).2, none]
      rfl
    · rw [queue, ← received, none]
      rfl

end Connection

open Connection

/-! ### Whole runs -/

structure Announced (command : Command) (chunks : List Bytes) : Prop where
  length : chunks.length = command.literalCount + 1
  literal {n : Nat} {data : Bytes} : command.literals[n]? = some data → ∃ announcing following,
    chunks[n]? = some announcing ∧ chunks[n + 1]? = some following ∧
      Command.announcement data.length true <:+ announcing ∧ data <+: following

/-- How a command in chunks is delivered, of which `i` is the write of the first chunk and `life`
is what follows until another command goes out under the tag. -/
structure Delivered (tag : Tag) (chunks : List Bytes) (i : Incident) (life : List Incident) :
    Prop where
  /-- At each moment, what has gone out is the beginning of the command, and no more chunks of it
  than requests have come, besides the first. -/
  octets {p : List Incident} : p <+: life → ownedOctets tag (i :: p) <+: chunks.flatten ∧
    ownedOctets tag (i :: p) <+: (chunks.take (requests p + 1)).flatten
  answered {p rest : List Incident} {text : String} {next : Bytes} :
    life = p ++ .heard (.continuation text) :: rest →
    (∀ j ∈ i :: p, j.ends tag = false) → chunks[handedOver tag p + 1]? = some next →
    ∃ answer after, rest = answer :: after ∧ answer.Puts (.chunk tag next) next ∧
      (answer.isUpset = true → ∀ j ∈ after, j.isTraffic = false)
  /-- Nothing else goes out before the last chunk. -/
  alone {p rest : List Incident} {j : Incident} : life = p ++ j :: rest →
    (∀ j ∈ i :: p, j.ends tag = false) → handedOver tag p + 1 < chunks.length →
    j.written?.isSome = true → j.hands tag = true
  stops {p rest : List Incident} {j : Incident} : life = p ++ j :: rest → j.ends tag = true →
    ∀ k ∈ rest, k.hands tag = false

theorem announced_encode (command : Command) (tag : Tag) :
    Announced command (command.encode tag true).chunks := by
  refine ⟨?_, fun h => Command.announced_chunksAfter h⟩
  rw [← Command.length_literals]
  exact Command.length_chunks_chunksAfter _ _

theorem opens_tenure {incidents : List Incident} (h : i ∈ tenure tag incidents) :
    i.opens tag = false := by
  have unopened := List.all_eq_true.mp List.all_takeWhile i h
  simpa using unopened

theorem delivered_of_puts {command : Command} {c c' : Connection} {before after : List Incident}
    (h : Course False c (before ++ i :: after) c')
    (hi : i.Puts (.command tag command) (command.encode tag true).first) :
    Delivered tag (command.encode tag true).chunks i (tenure tag after) := by
  have delivers := delivers_of_puts h hi
  have begun {p : List Incident} (hp : p <+: tenure tag after) :
      ownedOctets tag (i :: p) <+:
        ((command.encode tag true).chunks.take (requests p + 1)).flatten := by
    have later := delivers.owned_prefix (fun _ => opens_tenure) hp
    rw [Command.Encoding.chunks, List.take_succ_cons, List.flatten_cons, ownedOctets,
      List.flatMap_cons, ← ownedOctets]
    rcases hi with rfl | ⟨count, rfl⟩
    · have all : (Incident.wrote (.command tag command) (command.encode tag true).first).owned tag =
          (command.encode tag true).first := by
        simp [Incident.owned, Incident.opens, Incident.written?, Incident.octets]
      rw [all]
      exact (List.prefix_append_right_inj _).mpr later
    · have part : (Incident.cut (.command tag command) (command.encode tag true).first
          count).owned tag = (command.encode tag true).first.take count := by
        simp [Incident.owned, Incident.opens, Incident.written?, Incident.octets]
      obtain ⟨c₁, -, unusable, hafter⟩ := course_upset h rfl
      have quiet : ∀ j ∈ p, j.hands tag = false := fun j hj =>
        hands_of_silent ((silent_course hafter unusable).1 j (mem_of_mem_tenure (hp.subset hj)))
      have nothing := ownedOctets_eq_nil (fun j hj => opens_tenure (hp.subset hj)) quiet
      rw [part, nothing, List.append_nil]
      exact (List.take_prefix _ _).trans (List.prefix_append _ _)
  refine ⟨fun {p} hp => ⟨?_, begun hp⟩, ?_, ?_, delivers.stops⟩
  · obtain ⟨rest, hrest⟩ := List.take_prefix (requests p + 1) (command.encode tag true).chunks
    refine (begun hp).trans ⟨rest.flatten, ?_⟩
    rw [← List.flatten_append, hrest]
  · intro p rest text next hl he hn
    rw [hl] at delivers
    exact delivers.answered (fun j hj => he j (List.mem_cons_of_mem _ hj)) hn
  · intro p rest j hl he hn hj
    rw [hl] at delivers
    refine delivers.alone (fun j hj => he j (List.mem_cons_of_mem _ hj)) ?_ hj
    simpa [Command.Encoding.chunks] using hn

/-- In every run in which the caller sends no lines of its own, a command whose literals wait is
delivered chunk by chunk, as the server asks for it. That it was sent so shows in its first
chunk. -/
theorem delivered_run (ops : List Operation) (h : ∀ op ∈ ops, op.isLine = false) (c : Connection) :
    (∀ command tag, Announced command (command.encode tag true).chunks) ∧
    Leads False c (Operation.run ops c) ∧
    (∀ incidents, Course False c incidents (Operation.run ops c) →
      (Operation.run ops c).emitted = c.emitted ++ incidents.flatMap Incident.octets ∧
      (Operation.run ops c).usable = (c.usable && incidents.all fun i => !i.isUpset) ∧
      ∀ before i after tag command, incidents = before ++ i :: after →
        i.Puts (.command tag command) (command.encode tag true).first →
        Delivered tag (command.encode tag true).chunks i (tenure tag after)) ∧
    ∀ c₁ limit text c₂, readResponse limit c₁ = (.ok (.continuation text), c₂) →
      Drained c₁ text c₂ := by
  refine ⟨announced_encode, Operation.leads_run ops c ?_, ?_, ?_⟩
  · rintro ⟨op, hm, hl⟩
    rw [h op hm] at hl
    cases hl
  · intro incidents course
    refine ⟨emitted_course course, usable_course course, ?_⟩
    rintro before i after tag command rfl hi
    exact delivered_of_puts course hi
  · intro c₁ limit text c₂ hr
    obtain ⟨hu, hn⟩ := readResponse_ok hr
    exact drained_of_nextResponse hu hn

/-- A password with a line end in it, which goes out when the server asks for it. A request that
comes before the command is left to the caller. -/
theorem delivered_login :
    let stream := Wire.Stream.start
      [.data (Bytes.ofText "* OK ready\r\n+ early\r\n+ go\r\na1 OK done\r\n")] .unlimited
    let c₀ := (start stream { host := "mail" }).2
    let command : Command := ⟨"LOGIN", [.plain "u", .literal (Bytes.ofText "x\r\n")], true⟩
    let ops : List Operation := [.send ⟨"a1"⟩ command, .readResponse 1]
    let chunks := (command.encode ⟨"a1"⟩ true).chunks
    ∃ text c, readResponse 1 c₀ = (.ok (.continuation text), c) ∧ Drained c₀ text c ∧
      ∃ i after, Course False c (i :: after) (Operation.run ops c) ∧
        i.Puts (.command ⟨"a1"⟩ command) (command.encode ⟨"a1"⟩ true).first ∧
        Delivered ⟨"a1"⟩ chunks i (tenure ⟨"a1"⟩ after) ∧
        (Operation.run ops c).emitted = chunks.flatten := by
  intro stream c₀ command ops chunks
  have early : ((readResponse 1 c₀).1.toOption.map fun r => (Incident.heard r).isRequest) =
      some true := by decide +kernel
  have ready : (readResponse 1 c₀).2.usable = true ∧ (readResponse 1 c₀).2.outstanding = [] ∧
      (readResponse 1 c₀).2.pending = none ∧
      (readResponse 1 c₀).2.hasCapability "LITERAL+" = false := by decide +kernel
  have whole : (Operation.run ops (readResponse 1 c₀).2).emitted = chunks.flatten := by
    decide +kernel
  rcases hr : readResponse 1 c₀ with ⟨e | _ | _ | text, c⟩ <;> rw [hr] at early <;> cases early
  rw [hr] at ready whole
  obtain ⟨hu, ho, hp, hl⟩ := ready
  obtain ⟨-, -, -, drained⟩ := delivered_run [] (by simp) c₀
  obtain ⟨-, -, delivered, -⟩ := delivered_run ops (by simp [ops, Operation.isLine]) c
  have encoding : c.encoding ⟨"a1"⟩ command = command.encode ⟨"a1"⟩ true := by
    simp [Connection.encoding, hl]
  have unused : (⟨"a1"⟩ : Tag) ∉ c.outstanding := by
    rw [show c.outstanding = [] from ho]
    exact List.not_mem_nil
  have first : Step False c _ _ := @Step.command _ c ⟨"a1"⟩ command hu unused hp
  obtain ⟨after, rest⟩ : Leads False (send ⟨"a1"⟩ command c).2 (Operation.run ops c) :=
    (clear_readResponse 1 _).leads
  have course := Course.step first rest
  have puts : (c.writing (.command ⟨"a1"⟩ command) (c.encoding ⟨"a1"⟩ command).first).Puts
      (.command ⟨"a1"⟩ command) (command.encode ⟨"a1"⟩ true).first := by
    rw [encoding]
    obtain ⟨-, -, ⟨hw, -⟩ | ⟨count, -, hw, -⟩⟩ :=
      writing_cases (.command ⟨"a1"⟩ command) (command.encode ⟨"a1"⟩ true).first c
    · exact .inl hw
    · exact .inr ⟨count, hw⟩
  exact ⟨text, c, rfl, drained c₀ 1 text c hr, _, after, course, puts,
    (delivered _ course).2.2 [] _ after _ _ rfl puts, whole⟩

end MailClient.Imap
