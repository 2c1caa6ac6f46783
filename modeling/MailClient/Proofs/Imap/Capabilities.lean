import MailClient.Proofs.Imap.Changes
import MailClient.Proofs.Imap.Correlation
import MailClient.Proofs.Imap.Timeouts

/-! Literals follow the latest capabilities. Whatever is done with a connection and whatever the
server says, the capabilities are those of the last response that carried any, and they decide how
the literals of a command go out at the moment at which it is sent. -/
namespace MailClient.Imap

/-! ### What a response says of capabilities -/

/-- The response carries these capabilities: it is an untagged CAPABILITY, or a status response with
a code of this name. A number in front of the keyword makes no difference. -/
inductive Response.Carries : Response → List String → Prop where
  | untagged {word names code} : Text.upper word = "CAPABILITY" →
      Carries (.untagged ⟨.atom word :: names, code, none⟩) (atoms names)
  | numbered {number word names code} : (Text.unsigned? (Nat.pow 2 32) number).isSome = true →
      Text.upper word = "CAPABILITY" →
      Carries (.untagged ⟨.atom number :: .atom word :: names, code, none⟩) (atoms names)
  | status {word names tokens text} : Text.upper word = "CAPABILITY" →
      Carries (.untagged ⟨tokens, some (.atom word :: names), some text⟩) (atoms names)
  | tagged {word names tag status text} : Text.upper word = "CAPABILITY" →
      Carries (.tagged tag status (some (.atom word :: names)) text) (atoms names)

namespace Response

variable {names : List String}

theorem codeCapabilities?_eq_some_iff {code : Option (List Token)} :
    codeCapabilities? code = some names ↔ ∃ word rest, code = some (.atom word :: rest) ∧
      Text.upper word = "CAPABILITY" ∧ names = atoms rest := by
  constructor
  · intro h
    unfold codeCapabilities? at h
    split at h
    next first rest =>
      split at h
      next hk =>
        unfold Token.isKeyword at hk
        split at hk
        next word ha =>
          cases h
          rw [Token.eq_atom ha]
          exact ⟨word, rest, rfl, eq_of_beq hk, rfl⟩
        · cases hk
      · cases h
    · cases h
  · rintro ⟨word, rest, rfl, hw, rfl⟩
    have keyword : (Token.atom word).isKeyword "CAPABILITY" = true := by
      simp [Token.isKeyword, Token.atom?, Text.sameWord, hw,
        show Text.upper "CAPABILITY" = "CAPABILITY" from rfl]
    rw [codeCapabilities?, if_pos keyword]

theorem capabilities?_untagged_iff {u : Untagged} (h : u.text = none) :
    capabilities? (.untagged u) = some names ↔ ∃ word, u.keyword? = some word ∧
      Text.upper word = "CAPABILITY" ∧ names = atoms u.arguments := by
  have upper : Text.upper "CAPABILITY" = "CAPABILITY" := rfl
  simp only [capabilities?, h, Option.isNone_none, if_true]
  cases u.keyword? with
  | none => simp
  | some word =>
    simp only [Text.sameWord, upper, beq_iff_eq, Option.some.injEq, exists_eq_left']
    by_cases hw : Text.upper word = "CAPABILITY"
    · simp [hw, eq_comm]
    · simp [hw]

theorem Carries.listed {r : Response} (h : r.Carries names) : r.capabilities? = some names := by
  cases h with
  | @untagged word rest code hw =>
    have plain : Text.unsigned? (Nat.pow 2 32) word = none :=
      Text.unsigned?_eq_none_of_upper (by rw [hw]; rfl)
    obtain ⟨keyword, arguments⟩ := @Untagged.keyword_first word rest code none plain
    exact (capabilities?_untagged_iff rfl).mpr ⟨word, keyword, hw, congrArg atoms arguments.symm⟩
  | @numbered number word rest code hn hw =>
    obtain ⟨keyword, arguments⟩ := @Untagged.keyword_second number word rest code none hn
    exact (capabilities?_untagged_iff rfl).mpr ⟨word, keyword, hw, congrArg atoms arguments.symm⟩
  | status hw => exact codeCapabilities?_eq_some_iff.mpr ⟨_, _, rfl, hw, rfl⟩
  | tagged hw => exact codeCapabilities?_eq_some_iff.mpr ⟨_, _, rfl, hw, rfl⟩

theorem carries_of_listed {r : Response} (h : r.capabilities? = some names) : r.Carries names := by
  cases r with
  | untagged u =>
    obtain ⟨tokens, code, text⟩ := u
    cases text with
    | none =>
      obtain ⟨word, keyword, hw, rfl⟩ := (capabilities?_untagged_iff rfl).mp h
      rcases Untagged.keyword_place keyword with ⟨-, rest, ht, ha⟩ | ⟨number, rest, -, hn, ht, ha⟩
      · rw [ha]
        cases ht
        exact .untagged hw
      · rw [ha]
        cases ht
        exact .numbered hn hw
    | some text =>
      obtain ⟨word, rest, rfl, hw, rfl⟩ := codeCapabilities?_eq_some_iff.mp h
      exact .status hw
  | tagged tag status code text =>
    obtain ⟨word, rest, rfl, hw, rfl⟩ := codeCapabilities?_eq_some_iff.mp h
    exact .tagged hw
  | continuation text => cases h

theorem carries_iff {r : Response} : r.Carries names ↔ r.capabilities? = some names :=
  ⟨Carries.listed, carries_of_listed⟩

end Response

/-! ### The last capabilities -/

inductive Notice where
  /-- A response has been given to whoever reads. -/
  | returned (r : Response)
  /-- Encryption has begun, and with it a connection of which nothing has been said yet. -/
  | secured

def Notice.of : Except Error Response → List Notice
  | .ok r => [.returned r]
  | .error _ => []

def Notice.IsSilent : Notice → Prop
  | .returned r => ∀ names, ¬r.Carries names
  | .secured => False

/-- These are the capabilities of the last response that carried any. There are none before the
first one. -/
inductive Latest (notices : List Notice) : List String → Prop where
  | carried {past r later names} : notices = past ++ .returned r :: later → r.Carries names →
      (∀ n ∈ later, n.IsSilent) → Latest notices names
  | secured {past later} : notices = past ++ .secured :: later → (∀ n ∈ later, n.IsSilent) →
      Latest notices []
  | first : (∀ n ∈ notices, n.IsSilent) → Latest notices []

namespace Latest

variable {notices : List Notice} {names : List String}

theorem silent (h : Latest notices names) {n : Notice} (hn : n.IsSilent) :
    Latest (notices ++ [n]) names := by
  have still {later : List Notice} (hl : ∀ n ∈ later, n.IsSilent) :
      ∀ n' ∈ later ++ [n], n'.IsSilent := by
    intro n' hn'
    rcases List.mem_append.mp hn' with hn' | hn'
    · exact hl n' hn'
    · rwa [List.mem_singleton.mp hn']
  cases h with
  | @carried past r later _ hs hr hl =>
    have split : notices ++ [n] = past ++ .returned r :: (later ++ [n]) := by simp [hs]
    exact .carried split hr (still hl)
  | @secured past later hs hl =>
    have split : notices ++ [n] = past ++ .secured :: (later ++ [n]) := by simp [hs]
    exact .secured split (still hl)
  | first hl => exact .first (still hl)

theorem returned (h : Latest notices names) (r : Response) :
    Latest (notices ++ [.returned r]) (r.capabilities?.getD names) := by
  cases hr : r.capabilities? with
  | none =>
    refine h.silent fun names' carried => ?_
    rw [Response.carries_iff, hr] at carried
    cases carried
  | some names' => exact .carried rfl (Response.carries_iff.mpr hr) (by simp)

end Latest

/-! ### Runs -/

namespace Connection

inductive Call : Connection → List Notice → Connection → Prop where
  | tag (c) : Call c [] c.nextTag.2
  | pause (c) (span) : Call c [] { c with stream := c.stream.wait span }
  | greeted (c) : Call c [] { c with preauth := true }
  | command (tag) (command) (c) : Call c [] (send tag command c).2
  | line (text) (c) : Call c [] (sendLine text c).2
  | read (limit) (c) : Call c (Notice.of (readResponse limit c).1) (readResponse limit c).2
  | misfit (c) : Call c [] c.poison
  | close (c) : Call c [] c.close
  | secured (stream) (c) : Call c [.secured] (c.secure stream)

inductive History : Connection → List Notice → Connection → Prop where
  | refl (c) : History c [] c
  | step {c notices c₁ later c'} : Call c notices c₁ → History c₁ later c' →
      History c (notices ++ later) c'

variable {c c' c₁ : Connection} {r : Response} {limit : Duration} {settings : Settings}
  {past notices later : List Notice}

theorem History.single (h : Call c notices c') : History c notices c' := by
  have made := History.step h (.refl c')
  rwa [List.append_nil] at made

theorem History.trans (h : History c notices c₁) (h' : History c₁ later c') :
    History c (notices ++ later) c' := by
  induction h with
  | refl => exact h'
  | step hc _ ih =>
    rw [List.append_assoc]
    exact .step hc (ih h')

/-- A history in which encryption does not begin. -/
def Makes (c c' : Connection) : Prop := ∃ notices, History c notices c' ∧ .secured ∉ notices

theorem Call.makes (h : Call c notices c') (plain : .secured ∉ notices) : Makes c c' :=
  ⟨notices, .single h, plain⟩

theorem within_makes : Within Makes where
  refl c := ⟨[], .refl c, by simp⟩
  trans := by
    rintro c c₁ c' ⟨notices, h, plain⟩ ⟨later, h', plain'⟩
    exact ⟨notices ++ later, h.trans h', by simp [plain, plain']⟩
  tag c := (Call.tag c).makes (by simp)
  pause c span := (Call.pause c span).makes (by simp)
  greeted c := (Call.greeted c).makes (by simp)
  command tag command c := (Call.command tag command c).makes (by simp)
  line text c := (Call.line text c).makes (by simp)
  read limit c := by
    refine (Call.read limit c).makes ?_
    cases (readResponse limit c).1 <;> simp [Notice.of]
  misfit c := (Call.misfit c).makes (by simp)
  close c := (Call.close c).makes (by simp)

/-! ### One call -/

structure SameTerms (c c' : Connection) : Prop where
  capabilities : c'.capabilities = c.capabilities
  literalPlus : c'.literalPlus = c.literalPlus

theorem SameTerms.trans (h : SameTerms c c₁) (h' : SameTerms c₁ c') : SameTerms c c' :=
  ⟨h'.capabilities.trans h.capabilities, h'.literalPlus.trans h.literalPlus⟩

theorem sameTerms_write (bytes : Bytes) (entry : Entry) (c : Connection) :
    SameTerms c (write bytes entry c).2 := by
  unfold write
  dsimp only
  split <;> exact ⟨rfl, rfl⟩

theorem sameTerms_sendLine (text : String) (c : Connection) :
    SameTerms c (sendLine text c).2 := by
  unfold sendLine
  split
  · exact ⟨rfl, rfl⟩
  · exact sameTerms_write _ _ c

theorem sameTerms_sendChunk (t : Transfer) (c : Connection) :
    SameTerms c (sendChunk t c).2 := by
  obtain ⟨stream, ⟨-, hs⟩ | ⟨_, _, -, hs⟩⟩ := sendChunk_cases t c
  · rw [hs]
    exact ⟨rfl, rfl⟩
  · rw [hs]
    exact ⟨rfl, rfl⟩

theorem sameTerms_send (tag : Tag) (command : Command) (c : Connection) :
    SameTerms c (send tag command c).2 := by
  unfold send
  split
  · exact ⟨rfl, rfl⟩
  · split
    · exact ⟨rfl, rfl⟩
    · split
      · exact ⟨rfl, rfl⟩
      · dsimp only
        split
        next hw => exact rel_of_eq (sameTerms_write _ _ c) hw
        next hw =>
          have same : SameTerms c _ := rel_of_eq (sameTerms_write _ _ c) hw
          exact ⟨same.capabilities, same.literalPlus⟩

theorem sameTerms_receive {result : Except Error Response} (h : receive limit c = (result, c')) :
    SameTerms c c' := by
  cases result with
  | ok r =>
    obtain ⟨stream, rfl⟩ := receive_ok h
    exact ⟨rfl, rfl⟩
  | error e =>
    obtain ⟨stream, rfl | ⟨rfl, -⟩⟩ := receive_error h
    · exact ⟨rfl, rfl⟩
    · exact ⟨rfl, rfl⟩

structure Knows (settings : Settings) (notices : List Notice) (c : Connection) : Prop where
  latest : Latest notices c.capabilities
  literalPlus : c.literalPlus = settings.literalPlus

namespace Knows

theorem same (h : Knows settings past c) (hs : SameTerms c c') : Knows settings past c' := by
  constructor
  · rw [hs.capabilities]
    exact h.latest
  · rw [hs.literalPlus]
    exact h.literalPlus

theorem quiet (h : Knows settings past c) (hs : SameTerms c c') :
    Knows settings (past ++ []) c' := by
  rw [List.append_nil]
  exact h.same hs

theorem settle (h : Knows settings past c) {r' : Response} (hs : settle r c = (.ok r', c')) :
    Knows settings (past ++ [.returned r]) c' where
  latest := by
    rw [capabilities_settle hs]
    exact h.latest.returned r
  literalPlus := by
    obtain ⟨-, -, _, _, -, rfl⟩ := settle_ok hs
    exact h.literalPlus

/-- Requests that chunks are the answer to make nothing known. -/
theorem nextResponse (limit : Duration) (h : Knows settings past c) :
    Knows settings (past ++ Notice.of (nextResponse limit c).1) (nextResponse limit c).2 := by
  fun_induction Connection.nextResponse limit c with
  | case1 c e c₁ hr => exact h.quiet (sameTerms_receive hr)
  | case2 c c₁ text t hr hp e c₂ hs =>
    have answered : SameTerms c₁ c₂ := rel_of_eq (sameTerms_sendChunk t c₁) hs
    exact h.quiet ((sameTerms_receive hr).trans answered)
  | case3 c c₁ text t hr hp c₂ hs _ _ ih =>
    have answered : SameTerms c₁ c₂ := rel_of_eq (sameTerms_sendChunk t c₁) hs
    exact ih (h.same ((sameTerms_receive hr).trans answered))
  | case4 c c₁ r hr _ _ =>
    have received := h.same (sameTerms_receive hr)
    rcases hs : Connection.settle r c₁ with ⟨e | r', c₂⟩
    · obtain ⟨rfl, -⟩ := settle_error hs
      exact received.quiet ⟨rfl, rfl⟩
    · obtain ⟨rfl, -⟩ := settle_ok hs
      exact received.settle hs

theorem readResponse (limit : Duration) (h : Knows settings past c) :
    Knows settings (past ++ Notice.of (readResponse limit c).1) (readResponse limit c).2 := by
  unfold Connection.readResponse
  split
  · exact h.quiet ⟨rfl, rfl⟩
  · exact h.nextResponse limit

theorem call (h : Knows settings past c) (hc : Call c notices c') :
    Knows settings (past ++ notices) c' := by
  cases hc with
  | tag | pause | greeted | misfit | close => exact h.quiet ⟨rfl, rfl⟩
  | command => exact h.quiet (sameTerms_send _ _ c)
  | line => exact h.quiet (sameTerms_sendLine _ c)
  | read limit => exact h.readResponse limit
  | secured => exact ⟨.secured rfl (by simp), h.literalPlus⟩

theorem history (h : Knows settings past c) (hh : History c notices c') :
    Knows settings (past ++ notices) c' := by
  induction hh generalizing past with
  | refl =>
    rw [List.append_nil]
    exact h
  | step hc _ ih =>
    rw [← List.append_assoc]
    exact ih (h.call hc)

theorem fresh (stream : Wire.Stream) (settings : Settings) :
    Knows settings [] (fresh stream settings) := ⟨.first (by simp), rfl⟩

end Knows

/-! ### A command that is sent -/

/-- Of the command `first` goes out, and the chunks of `waiting` wait for the server. If the write
fails, a part of `first` has gone out; if the command is refused, nothing. -/
structure Puts (c : Connection) (tag : Tag) (command : Command) (first : Bytes)
    (waiting : List Bytes) : Prop where
  within : ∃ written, written <+: first ∧ (send tag command c).2.emitted = c.emitted ++ written
  sent : ∀ u c', send tag command c = (.ok u, c') →
    c'.emitted = c.emitted ++ first ∧ c'.pending = Transfer.ofChunks tag waiting
  /-- A command that may go out does, as long as the peer takes what is written. -/
  goes : c.usable = true → tag ∉ c.outstanding → c.pending = none → c.stream.outlet.IsOpen →
    ∃ c', send tag command c = (.ok (), c')

theorem send_of_isOpen {tag : Tag} {command : Command} (hu : c.usable = true)
    (ht : tag ∉ c.outstanding) (hp : c.pending = none) (ho : c.stream.outlet.IsOpen) :
    ∃ c', send tag command c = (.ok (), c') := by
  obtain ⟨stream, -, ⟨-, hs⟩ | ⟨count, e, hlabel, -⟩⟩ := @send_cases c tag command hu ht hp
  · exact ⟨_, hs⟩
  · rw [writing, (Wire.Stream.write_of_isOpen ho _ _).1] at hlabel
    cases hlabel

theorem puts_encoding (tag : Tag) (command : Command) (c : Connection) :
    Puts c tag command (c.encoding tag command).first (c.encoding tag command).later := by
  -- A command that is refused changes nothing, so no octet of it has gone out.
  have refused (h : ∃ e, send tag command c = (.error e, c)) :
      Puts c tag command (c.encoding tag command).first (c.encoding tag command).later := by
    obtain ⟨e, h⟩ := h
    refine ⟨⟨[], List.nil_prefix, ?_⟩, ?_, send_of_isOpen⟩
    · rw [h, List.append_nil]
    · intro u c' hs
      rw [h] at hs
      cases hs
  by_cases hu : c.usable = true
  · by_cases hb : tag ∈ c.outstanding ∨ c.pending.isSome = true
    · exact refused (refused_send tag command hb)
    · rw [not_or, Option.not_isSome_iff_eq_none] at hb
      obtain ⟨stream, hsent, ⟨hlabel, hs⟩ | ⟨count, e, hlabel, hs⟩⟩ :=
        @send_cases c tag command hu hb.1 hb.2
      · rw [hlabel] at hsent
        refine ⟨⟨_, List.prefix_rfl, ?_⟩, ?_, send_of_isOpen⟩
        · rw [hs]
          exact hsent
        · intro u c' h
          rw [hs] at h
          cases h
          exact ⟨hsent, rfl⟩
      · rw [hlabel] at hsent
        refine ⟨⟨_, List.take_prefix count _, ?_⟩, ?_, send_of_isOpen⟩
        · rw [hs]
          exact hsent
        · intro u c' h
          rw [hs] at h
          cases h
  · exact refused ⟨.misuse .unusable, by simp [send, hu]⟩

/-! ### The terms -/

def Agreed (settings : Settings) (names : List String) : Prop :=
  settings.literalPlus = true ∧ ∃ name ∈ names, Text.upper name = "LITERAL+"

instance (settings : Settings) (names : List String) : Decidable (Agreed settings names) :=
  inferInstanceAs (Decidable (_ ∧ _))

theorem agreed_iff (h : c.literalPlus = settings.literalPlus) :
    Agreed settings c.capabilities ↔ (c.literalPlus && c.hasCapability "LITERAL+") = true := by
  have upper : Text.upper "LITERAL+" = "LITERAL+" := rfl
  rw [Agreed, Bool.and_eq_true, h, hasCapability, List.any_eq_true]
  simp only [Text.sameWord, upper, beq_iff_eq, @eq_comm _ "LITERAL+"]

end Connection

open Connection

/-- At a moment of a run, after these notices: what the capabilities are, and what they mean for
literals. -/
structure Follows (settings : Settings) (notices : List Notice) (c : Connection) : Prop where
  latest : Latest notices c.capabilities
  /-- What a response says holds from the moment at which it is returned. -/
  read (limit : Duration) : Latest (notices ++ Notice.of (readResponse limit c).1)
    (readResponse limit c).2.capabilities
  /-- Where it is agreed, literals go out right behind their announcements, with plus signs. -/
  atOnce (tag : Tag) (command : Command) : Agreed settings c.capabilities →
    Puts c tag command (command.words tag false) []
  /-- Otherwise no octet of a literal goes out before the server has asked for it. -/
  asked (tag : Tag) (command : Command) : ¬Agreed settings c.capabilities →
    ∃ waiting, command.Awaits tag waiting ∧ Puts c tag command (command.opening tag) waiting
  /-- A command with literals shows by what goes out which of the two it is. -/
  apart (tag : Tag) (command : Command) (c' : Connection) : send tag command c = (.ok (), c') →
    command.literals ≠ [] →
    (c'.emitted = c.emitted ++ command.words tag false ↔ Agreed settings c.capabilities)

theorem follows_of_history {stream : Wire.Stream} {settings : Settings} {notices : List Notice}
    {c : Connection} (h : History (fresh stream settings) notices c) :
    Follows settings notices c := by
  have known : Knows settings notices c := (Knows.fresh stream settings).history h
  have puts (tag : Tag) (command : Command) := puts_encoding tag command c
  have atOnce (tag : Tag) (command : Command) (agreed : Agreed settings c.capabilities) :
      Puts c tag command (command.words tag false) [] := by
    have put := puts tag command
    rw [encoding, (agreed_iff known.literalPlus).mp agreed, Bool.not_true,
      Command.first_encode_false, Command.later_encode_false] at put
    exact put
  have asked (tag : Tag) (command : Command) (refused : ¬Agreed settings c.capabilities) :
      ∃ waiting, command.Awaits tag waiting ∧ Puts c tag command (command.opening tag) waiting := by
    rw [agreed_iff known.literalPlus, Bool.not_eq_true] at refused
    have put := puts tag command
    rw [encoding, refused, Bool.not_false, Command.first_encode_true] at put
    exact ⟨_, command.awaits_encode tag, put⟩
  refine ⟨known.latest, fun limit => (known.readResponse limit).latest, atOnce, asked, ?_⟩
  intro tag command c' hs literals
  constructor
  · -- Had its literals to wait, less than the whole command would have gone out.
    refine fun all => Classical.byContradiction fun refused => ?_
    obtain ⟨waiting, -, put⟩ := asked tag command refused
    have first := (put.sent () c' hs).1
    rw [all, List.append_cancel_left_eq] at first
    exact Command.opening_ne_words tag literals first.symm
  · intro agreed
    exact ((atOnce tag command agreed).sent () c' hs).1

namespace Operation

theorem history_perform (op : Operation) (c : Connection) :
    ∃ notices, History c notices (perform c op) ∧ (.secured ∈ notices → op.isStartTls = true) := by
  cases hop : op.isStartTls with
  | false =>
    obtain ⟨notices, history, plain⟩ := within_perform within_makes hop c
    exact ⟨notices, history, fun secured => (plain secured).elim⟩
  | true =>
    cases op with
    | startTls host secured =>
      -- What it asks for is a command like any other; only then the connection starts over.
      obtain ⟨notices, asked, -⟩ := within_makes.execute (.named "STARTTLS") c
      unfold perform
      dsimp only
      split
      · exact ⟨_, asked.trans (.single (.secured secured _)), fun _ => rfl⟩
      · exact ⟨notices, asked, fun _ => rfl⟩
    | _ => cases hop

theorem history_run (ops : List Operation) (c : Connection) :
    ∃ notices, History c notices (run ops c) ∧
      (.secured ∈ notices → ∃ op ∈ ops, op.isStartTls = true) := by
  induction ops generalizing c with
  | nil => exact ⟨[], .refl c, by simp⟩
  | cons op rest ih =>
    obtain ⟨notices, performed, first⟩ := history_perform op c
    obtain ⟨later, ran, others⟩ := ih (perform c op)
    refine ⟨notices ++ later, performed.trans ran, fun secured => ?_⟩
    rcases List.mem_append.mp secured with secured | secured
    · exact ⟨op, List.mem_cons_self, first secured⟩
    · obtain ⟨op', hm, hop⟩ := others secured
      exact ⟨op', List.mem_cons_of_mem _ hm, hop⟩

end Operation

/-- From the greeting on, at every point of every run: the capabilities are those of the last
response that carried any, and a literal goes out without waiting exactly where these and the
settings allow it. Only encryption makes a connection start over. -/
theorem follows_run {stream : Wire.Stream} {settings : Settings} {c : Connection}
    (h : start stream settings = (.ok (), c)) (ops : List Operation) :
    (∃ notices, History (fresh stream settings) notices (Operation.run ops c) ∧
      (.secured ∈ notices → ∃ op ∈ ops, op.isStartTls = true)) ∧
    ∀ before c₁ after, History (fresh stream settings) before c₁ →
      History c₁ after (Operation.run ops c) → Follows settings before c₁ := by
  refine ⟨?_, fun before c₁ after hbefore _ => follows_of_history hbefore⟩
  obtain ⟨greeted, opened, plain⟩ := within_makes.start h
  obtain ⟨notices, ran, secured⟩ := Operation.history_run ops c
  refine ⟨greeted ++ notices, opened.trans ran, fun hm => ?_⟩
  exact secured ((List.mem_append.mp hm).resolve_left plain)

/-- The greeting announces LITERAL+, and the next response does not. -/
theorem follows_withdrawn :
    let stream := Wire.Stream.start [.data (Bytes.ofText
      "* OK [CAPABILITY IMAP4rev1 Literal+] ready\r\n* CAPABILITY IMAP4rev1\r\n")] .unlimited
    let settings : Settings := { host := "mail" }
    ∃ c greeted notices, start stream settings = (.ok (), c) ∧
      History (fresh stream settings) greeted c ∧ Follows settings greeted c ∧
      Agreed settings c.capabilities ∧
      History (fresh stream settings) notices (Operation.run [.readResponse 1] c) ∧
      Follows settings notices (Operation.run [.readResponse 1] c) ∧
      ¬Agreed settings (Operation.run [.readResponse 1] c).capabilities := by
  intro stream settings
  have known : ((start stream settings).1.toOption.map fun _ =>
      ((start stream settings).2.capabilities,
        (Operation.run [.readResponse 1] (start stream settings).2).capabilities)) =
      some (["IMAP4rev1", "Literal+"], ["IMAP4rev1"]) := by
    decide +kernel
  rcases hs : start stream settings with ⟨e | u, c⟩
  · rw [hs] at known
    cases known
  · rw [hs] at known
    obtain ⟨now, later⟩ := Prod.mk.inj (Option.some.inj known)
    obtain ⟨⟨greeted, opened, -⟩, follows⟩ := follows_run hs []
    obtain ⟨⟨notices, ran, -⟩, follows'⟩ := follows_run hs [.readResponse 1]
    refine ⟨c, greeted, notices, rfl, opened, follows greeted c [] opened (.refl _), ?_, ran,
      follows' notices _ [] ran (.refl _), ?_⟩
    · rw [now]
      decide
    · rw [later]
      decide

end MailClient.Imap
