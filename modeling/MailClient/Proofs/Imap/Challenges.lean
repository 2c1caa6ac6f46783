import Mathlib.Data.Nat.Digits.Defs
import MailClient.Proofs.Imap.Opening
import MailClient.Proofs.Imap.RoundTrip
import MailClient.Proofs.Imap.Tags
import MailClient.Proofs.Sasl.Coding

/-! Authentication under tags. Requests to continue are challenges, and the completion of the
command tells how the exchange ends. -/
namespace MailClient.Imap

open Sasl (Scheme ServerStep Line)

/-! ### Tags in a row -/

def numbered (n : UInt32) : Tag := TagCounter.tag ⟨'A', n⟩

theorem toList_numbered (n : UInt32) :
    (numbered n).text.toList = 'A' :: (Text.padded 4 n.toNat).toList :=
  TagCounter.toList_tag ⟨'A', n⟩

theorem numbered_ne (n : UInt32) : (numbered n).text ≠ "" := by
  intro he
  have first := toList_numbered n
  rw [he] at first
  cases first

theorem isText_numbered (n : UInt32) : Base64.IsText (numbered n).text := by
  unfold Base64.IsText
  rw [toList_numbered, List.forall_mem_cons]
  refine ⟨by decide, fun c hc => ?_⟩
  simp [Base64.isSymbol, Char.isAlphanum, Text.isDigit_of_mem_padded hc]

/-- Numbers of 32 bits have ten digits at the most. -/
theorem length_numbered (n : UInt32) : (Bytes.ofText (numbered n).text).length ≤ 11 := by
  have digits : (Nat.toDigits 10 n.toNat).length ≤ 10 :=
    Nat.toDigits_length 10 _ 10 (by decide) (Nat.lt_trans n.toNat_lt (by decide))
  rw [(isText_numbered n).length_ofText, ← String.length_toList, toList_numbered,
    List.length_cons, Text.padded, String.toList_ofList, List.length_append, List.length_replicate]
  omega

theorem Octet.isTag_of_isDigit {b : UInt8} (h : isDigit b = true) : isTag b = true := by
  obtain ⟨⟨i⟩⟩ := b
  revert i
  decide +kernel

theorem isTag_numbered (n : UInt32) :
    ∀ b ∈ Bytes.ofText (numbered n).text, Octet.isTag b = true := by
  rw [Text.ofText_of_ascii (isText_numbered n).ascii, toList_numbered]
  intro b hb
  obtain ⟨c, hc, rfl⟩ := List.mem_map.mp hb
  rcases List.mem_cons.mp hc with rfl | hc
  · decide
  · have digit := Text.isDigit_of_mem_padded hc
    refine Octet.isTag_of_isDigit ?_
    rw [← Octet.isDigit_latin1, Text.latin1_octet (Text.lt_of_isDigit digit)]
    exact digit

theorem head_numbered (n : UInt32) :
    (Bytes.ofText (numbered n).text).head? ≠ some (octet '*') := by
  rw [Text.ofText_of_ascii (isText_numbered n).ascii, toList_numbered, List.map_cons,
    List.head?_cons]
  decide

/-! ### The steps of an exchange -/

namespace Dialogue

def responseTo (praise : String) (n : UInt32) : ServerStep → Response
  | .challenge data => .continuation data
  | .success => .tagged (numbered n) .ok none praise
  | .rejected why => .tagged (numbered n) .no none why

def commandLine (n : UInt32) (scheme : Scheme) (initial : Option String) : String :=
  (numbered n).text ++ " " ++ ("AUTHENTICATE " ++ (scheme.name ++ Sasl.argument initial))

/-- Exchanges are known by the numbers of their tags. A first message goes out with the command if
it may be `inline`, and otherwise the server asks for it. -/
def coding (inline : Bool) (praise : String) : Sasl.Coding UInt32 where
  next n := n + 1
  begins n scheme initial :=
    if inline then [commandLine n scheme initial]
    else commandLine n scheme none :: initial.toList
  prompt initial := if !inline && initial.isSome then (Response.continuation "").octets else []
  answer n step := (responseTo praise n step).octets

def lineRoom : Nat := 11 + 4 + Sasl.textLimit + 2

structure Fits {τ : Type} (inline : Bool) (n : UInt32) (isOpen : Bool) (d : Dialogue τ) : Prop where
  usable : d.connection.usable = true
  pending : d.connection.pending = none
  outstanding : d.connection.outstanding = d.tag.toList
  tag : d.tag = if isOpen then some (numbered n) else none
  tags : d.connection.tags = ⟨'A', n + 1⟩
  inline : d.inline = inline
  room : lineRoom ≤ d.connection.parse.line

def view (τ : Type) (inline : Bool) : Sasl.View (Dialogue τ) UInt32 τ where
  stream d := d.connection.stream
  tokens := Dialogue.tokens
  fits := Fits inline

variable {praise : String} {step : ServerStep} {n : UInt32} {inline isOpen : Bool}

theorem head_ofText {text : String} (h : text.toList.head? ≠ some '[') :
    (Bytes.ofText text).head? ≠ some (octet '[') := by
  unfold Bytes.ofText
  cases hc : text.toList with
  | nil => simp
  | cons c cs =>
    intro head
    have first : octet '[' ∈ String.utf8EncodeChar c := by
      have nonempty : String.utf8EncodeChar c ≠ [] := by
        obtain ⟨b, bs, encoded, -⟩ := Text.Utf8.front_encoded c []
        simp [encoded]
      rw [List.flatMap_cons, List.head?_append_of_ne_nil _ nonempty] at head
      exact List.mem_of_mem_head? head
    by_cases ascii : c.toNat < 128
    · rw [Text.encoded_of_ascii ascii] at first
      have same := congrArg latin1 (List.mem_singleton.mp first)
      rw [Text.latin1_octet ascii] at same
      rw [hc, ← same] at h
      exact h rfl
    · exact absurd (Text.Utf8.le_of_mem_encoded (Nat.le_of_not_lt ascii) first) (by decide)

theorem isText_of_isLine {text : String} (h : Text.IsLine text) :
    ∀ b ∈ Bytes.ofText text, Octet.isText b = true := by
  intro b hb
  simp [Octet.isText, h.octets hb]

theorem writable_completion {text : String} (h : Sasl.IsPlain text) (status : Status) :
    (Response.tagged (numbered n) status none text).Writable := by
  exact .completion (numbered_ne n) (isTag_numbered n) (head_numbered n)
    ⟨nofun, isText_of_isLine h.isLine, fun _ => head_ofText h.unbracketed⟩

theorem writable_responseTo (hp : Sasl.IsPlain praise) (hs : step.IsPlain) :
    (responseTo praise n step).Writable := by
  cases step with
  | challenge data => exact .continuation (isText_of_isLine hs.1.isSolid.isLine)
  | success => exact writable_completion hp .ok
  | rejected why => exact writable_completion hs .no

theorem room_completion {text : String} (h : Sasl.IsPlain text) {status : Status}
    (hs : (Bytes.ofText status.keyword).length = 2) :
    ∀ s ∈ (Response.tagged (numbered n) status none text).segments, s.length ≤ lineRoom := by
  have fits := h.fits
  have short := length_numbered n
  simp only [Response.segments, Response.fragments, Response.tailFragments,
    Fragment.segmentsAfter, List.forall_mem_singleton, List.length_append, List.length_cons,
    Bytes.line, Bytes.crlf, List.length_nil, hs, lineRoom]
  omega

theorem room_responseTo (hp : Sasl.IsPlain praise) (hs : step.IsPlain) :
    ∀ s ∈ (responseTo praise n step).segments, s.length ≤ lineRoom := by
  cases step with
  | challenge data =>
    have fits := hs.length_ofText
    simp only [responseTo, Response.segments, Response.fragments, Fragment.segmentsAfter,
      List.forall_mem_singleton, List.length_append, List.length_cons, Bytes.line, Bytes.crlf,
      List.length_nil, lineRoom]
    omega
  | success => exact room_completion hp rfl
  | rejected why => exact room_completion hs rfl

theorem storedAt_responseTo (spill : Nat) :
    (responseTo praise n step).storedAt spill = responseTo praise n step := by
  cases step <;> rfl

theorem consume_responseTo (hp : Sasl.IsPlain praise) (hs : step.IsPlain) {l : Parse.Limits}
    (room : lineRoom ≤ l.line) (rest : Bytes) :
    Parse.consume l Parse.initial ((responseTo praise n step).octets ++ rest) =
      .done (responseTo praise n step) rest := by
  rw [Parse.consume_eq_done_iff]
  refine (Parse.scan_rendered (writable_responseTo hp hs) l rest).trans ?_
  rw [if_pos fun s hm => Nat.le_trans (room_responseTo hp hs s hm) room, storedAt_responseTo]

/-! ### Dialogues -/

variable {τ : Type} {total heard said : Bytes} {t : τ} {d : Dialogue τ}

theorem encode_authenticateCommand (n : UInt32) (scheme : Scheme) (initial : Option String)
    (waits : Bool) : (authenticateCommand scheme initial).encode (numbered n) waits =
      ⟨Bytes.line (commandLine n scheme initial), []⟩ := by
  have space : Bytes.ofText " " = [octet ' '] := rfl
  have verb : Bytes.ofText "AUTHENTICATE " = Bytes.ofText "AUTHENTICATE" ++ [octet ' '] := rfl
  unfold authenticateCommand Command.encode commandLine
  cases initial with
  | none | some =>
    simp [Command.chunksAfter, Bytes.line, Text.Utf8.ofText_append, Sasl.argument, space, verb]

theorem write_of_stands {c : Connection} {bytes : Bytes} (entry : Entry)
    (h : c.stream.Stands total heard (bytes ++ said)) :
    ∃ stream : Wire.Stream, c.write bytes entry =
        (.ok (), { c with stream := stream }.record entry) ∧
      stream.Stands total heard said := by
  obtain ⟨stream, written, stands⟩ := h.write c.ioLimit
  refine ⟨stream, ?_, stands⟩
  unfold Connection.write
  rw [written]

theorem send_of_stands {c : Connection} {tag : Tag} {command : Command} {bytes : Bytes}
    (hu : c.usable = true) (ho : c.outstanding = []) (hp : c.pending = none)
    (encoded : ∀ waits, command.encode tag waits = ⟨bytes, []⟩)
    (h : c.stream.Stands total heard (bytes ++ said)) :
    ∃ stream : Wire.Stream, c.send tag command = (.ok (), { c with
        stream := stream
        outstanding := [tag]
        pending := none }.record (.command tag command)) ∧
      stream.Stands total heard said := by
  obtain ⟨stream, written, stands⟩ := write_of_stands (.command tag command) h
  refine ⟨stream, ?_, stands⟩
  unfold Connection.send
  rw [if_neg (by simp [hu]), if_neg (by simp [ho]), hp]
  dsimp only
  rw [encoded, written]
  simp [Connection.record, ho]

theorem sendLine_at {line : String}
    (h : (view τ inline).At total heard (Bytes.line line ++ said) n isOpen t d) :
    ∃ d', lift (Connection.sendLine line) d = (.ok (), d') ∧
      (view τ inline).At total heard said n isOpen t d' := by
  obtain ⟨stream, written, stands⟩ := write_of_stands (.line line) h.stands
  have fits := h.fits
  refine ⟨{ d with connection :=
    Connection.record (.line line) { d.connection with stream := stream } }, ?_, ?_⟩
  · unfold lift
    rw [Connection.sendLine_of_usable fits.usable, written]
  · exact ⟨stands, ⟨fits.usable, fits.pending, fits.outstanding, fits.tag, fits.tags, fits.inline,
      fits.room⟩, h.tokens⟩

/-- A response is read, and brought into line with the commands under way. -/
theorem readResponse_at {r : Response} {l : Duration}
    (h : (view τ inline).At total heard said n isOpen t d) {rest : Bytes}
    (hc : Parse.consume d.connection.parse Parse.initial heard = .done r rest) :
    ∃ stream : Wire.Stream, d.connection.readResponse l =
        Connection.settle r ({ d.connection with stream := stream }.record (.response r)) ∧
      stream.Stands total rest said := by
  obtain ⟨stream, read, stands⟩ := h.stands.read Parse.seamless hc l
  refine ⟨stream, ?_, stands⟩
  have received : d.connection.receive l =
      (.ok r, { d.connection with stream := stream }.record (.response r)) := by
    unfold Connection.receive
    rw [show d.connection.stream.read (Parse.framing d.connection.parse) l = _ from read]
  unfold Connection.readResponse
  rw [h.fits.usable, Bool.not_true, if_neg (by simp), Connection.nextResponse_eq h.fits.pending,
    received]

theorem answerTo_eq (tag : Tag) (c : Connection) :
    answerTo tag c = match c.readResponse c.ioLimit with
      | (.error e, c') => (.error e, c')
      | (.ok (.continuation text), c') => (.ok (.challenge text, some tag), c')
      | (.ok (.tagged completed status _ text), c') =>
        if completed = tag then
          (.ok (if status = .ok then .success else .rejected text, none), c')
        else answerTo tag c'
      | (.ok (.untagged _), c') => answerTo tag c' := by
  rw [answerTo]
  split
  all_goals
    next hr => simp only [hr]

theorem answerTo_continuation {tag : Tag} {c c' : Connection} {text : String}
    (h : c.readResponse c.ioLimit = (.ok (.continuation text), c')) :
    answerTo tag c = (.ok (.challenge text, some tag), c') := by
  rw [answerTo_eq, h]

theorem answerTo_tagged {tag : Tag} {c c' : Connection} {status : Status}
    {code : Option (List Token)} {text : String}
    (h : c.readResponse c.ioLimit = (.ok (.tagged tag status code text), c')) :
    answerTo tag c = (.ok (if status = .ok then .success else .rejected text, none), c') := by
  rw [answerTo_eq, h]
  exact if_pos rfl

theorem settle_completion {c : Connection} {tag : Tag} (outstanding : c.outstanding = [tag])
    (pending : c.pending = none) (status : Status) (text : String) :
    c.settle (.tagged tag status none text) =
      (.ok (.tagged tag status none text), { c with outstanding := [], pending := none }) := by
  unfold Connection.settle
  dsimp only
  rw [outstanding, pending, if_neg (by simp)]
  simp [Connection.observe, Response.capabilities?, Response.codeCapabilities?]

theorem readStep_eq {tag : Tag} {open? : Option Tag} {c : Connection} (ht : d.tag = some tag)
    (h : answerTo tag d.connection = (.ok (step, open?), c)) :
    readStep d = (.ok step, { d with connection := c, tag := open? }) := by
  unfold readStep
  rw [ht]
  dsimp only
  rw [h]

/-- The completion of the command ends the exchange. -/
theorem readStep_completion {text : String} {status : Status} {rest : Bytes}
    (h : (view τ inline).At total heard said n true t d)
    (hc : Parse.consume d.connection.parse Parse.initial heard =
      .done (.tagged (numbered n) status none text) rest) :
    ∃ d', readStep d = (.ok (if status = .ok then .success else .rejected text), d') ∧
      (view τ inline).At total rest said n false t d' := by
  have fits := h.fits
  obtain ⟨stream, read, stands⟩ := readResponse_at (l := d.connection.ioLimit) h hc
  have tag : d.tag = some (numbered n) := fits.tag
  have outstanding : d.connection.outstanding = [numbered n] := by
    rw [fits.outstanding, tag]
    rfl
  rw [settle_completion (by exact outstanding) (by exact fits.pending)] at read
  exact ⟨_, readStep_eq tag (answerTo_tagged read), stands,
    ⟨fits.usable, rfl, rfl, rfl, fits.tags, fits.inline, fits.room⟩, h.tokens⟩

/-- What a response leads to while the exchange is open. -/
theorem readStep_at (hp : Sasl.IsPlain praise) (hs : step.IsPlain)
    (h : (view τ inline).At total ((responseTo praise n step).octets ++ heard) said n true t d) :
    ∃ d', readStep d = (.ok (step.worded ""), d') ∧
      (view τ inline).At total heard said n step.isChallenge t d' := by
  have fits := h.fits
  have consumed := consume_responseTo (n := n) hp hs fits.room heard
  cases step with
  | challenge data =>
    obtain ⟨stream, read, stands⟩ := readResponse_at (l := d.connection.ioLimit) h consumed
    have tag : d.tag = some (numbered n) := fits.tag
    have outstanding := fits.outstanding
    rw [tag] at outstanding
    exact ⟨_, readStep_eq tag (answerTo_continuation read), stands,
      ⟨fits.usable, fits.pending, outstanding, rfl, fits.tags, fits.inline, fits.room⟩, h.tokens⟩
  | success => exact readStep_completion h consumed
  | rejected why =>
    obtain ⟨d', read, at'⟩ := readStep_completion h consumed
    refine ⟨d', ?_, at'⟩
    rw [read]
    simp [ServerStep.worded]

/-- The command goes out under the next tag. -/
theorem send_at {scheme : Scheme} {initial : Option String}
    (h : (view τ inline).At total heard (Bytes.line (commandLine (n + 1) scheme initial) ++ said) n
      false t d) :
    d.connection.nextTag.1 = numbered (n + 1) ∧
      ∃ c, d.connection.nextTag.2.send (numbered (n + 1)) (authenticateCommand scheme initial) =
          (.ok (), c) ∧
        (view τ inline).At total heard said (n + 1) true t
          { d with connection := c, tag := some (numbered (n + 1)) } := by
  have fits := h.fits
  have closed : d.tag = none := fits.tag
  have outstanding : d.connection.outstanding = [] := by
    rw [fits.outstanding, closed]
    rfl
  have next : d.connection.tags.next d.connection.outstanding =
      (numbered (n + 1), ⟨'A', n + 1 + 1⟩) := by
    rw [outstanding, fits.tags]
    rfl
  unfold Connection.nextTag
  rw [next]
  refine ⟨rfl, ?_⟩
  dsimp only
  obtain ⟨stream, sent, stands⟩ := send_of_stands
    (c := { d.connection with tags := ⟨'A', n + 1 + 1⟩ }) fits.usable outstanding fits.pending
    (encode_authenticateCommand (n + 1) scheme initial) h.stands
  exact ⟨_, sent, stands, ⟨fits.usable, rfl, rfl, rfl, rfl, fits.inline, fits.room⟩, h.tokens⟩

theorem respond_at {data : String} (hp : Sasl.IsPlain praise) (hs : step.IsPlain)
    (h : (view τ inline).At total ((responseTo praise n step).octets ++ heard)
      (Bytes.line data ++ said) n true t d) :
    ∃ d', respond data d = (.ok (step.worded ""), d') ∧
      (view τ inline).At total heard said n step.isChallenge t d' := by
  obtain ⟨d₁, written, at₁⟩ := sendLine_at h
  obtain ⟨d', read, at'⟩ := readStep_at hp hs at₁
  refine ⟨d', ?_, at'⟩
  change Action.bind (lift (Connection.sendLine data)) (fun _ => readStep) d = _
  unfold Action.bind
  rw [written]
  exact read

theorem start_eq {scheme : Scheme} {initial sent : Option String} {tag : Tag} {c : Connection} :
    d.connection.nextTag.1 = tag → (if d.inline then initial else none) = sent →
    d.connection.nextTag.2.send tag (authenticateCommand scheme sent) = (.ok (), c) →
    start scheme initial d = match readStep { d with connection := c, tag := some tag } with
      | (.ok (.challenge data), d) =>
        match initial, sent with
        | some message, none => respond message d
        | _, _ => (.ok (.challenge data), d)
      | r => r := by
  rintro rfl rfl h
  unfold start
  dsimp only
  rw [h]
  dsimp only
  obtain ⟨_ | (data | _ | why), d'⟩ :=
    readStep { d with connection := c, tag := some d.connection.nextTag.1 }
  · rfl
  · generalize (if d.inline = true then initial else none) = sent
    cases initial <;> cases sent <;> rfl
  · rfl
  · rfl

/-- A scheme begins with its first message in the command, or without one. -/
theorem start_whole {scheme : Scheme} {initial : Option String} (hp : Sasl.IsPlain praise)
    (hs : step.IsPlain) (hi : (if inline then initial else none) = initial)
    (h : (view τ inline).At total ((responseTo praise (n + 1) step).octets ++ heard)
      (Bytes.line (commandLine (n + 1) scheme initial) ++ said) n false t d) :
    ∃ d', start scheme initial d = (.ok (step.worded ""), d') ∧
      (view τ inline).At total heard said (n + 1) step.isChallenge t d' := by
  obtain ⟨tag, c, sent, at₁⟩ := send_at h
  obtain ⟨d', read, at'⟩ := readStep_at hp hs at₁
  refine ⟨d', ?_, at'⟩
  rw [start_eq tag (by rw [h.fits.inline]; exact hi) sent, read]
  cases step with
  | challenge data => cases initial <;> rfl
  | success | rejected => rfl

/-- Where it may not go out with the command, the first message follows when the server asks. -/
theorem start_prompted {scheme : Scheme} {message : String} (hp : Sasl.IsPlain praise)
    (hs : step.IsPlain)
    (h : (view τ false).At total ((Response.continuation "").octets ++
        ((responseTo praise (n + 1) step).octets ++ heard))
      (Bytes.line (commandLine (n + 1) scheme none) ++ (Bytes.line message ++ said)) n false t d) :
    ∃ d', start scheme (some message) d = (.ok (step.worded ""), d') ∧
      (view τ false).At total heard said (n + 1) step.isChallenge t d' := by
  obtain ⟨tag, c, sent, at₁⟩ := @send_at n false τ total _ _ t d scheme none h
  have asked : (ServerStep.challenge "").IsPlain := ⟨by decide, by decide⟩
  obtain ⟨d₂, prompted, at₂⟩ := readStep_at hp asked at₁
  obtain ⟨d', answered, at'⟩ := respond_at hp hs at₂
  refine ⟨d', ?_, at'⟩
  rw [start_eq tag (by rw [h.fits.inline]; rfl) sent, prompted]
  exact answered

theorem cancel_at {remark : String} (hp : Sasl.IsPlain praise) (hr : Sasl.IsPlain remark)
    (h : (view τ inline).At total ((responseTo praise n (.rejected remark)).octets ++ heard)
      (Bytes.line "*" ++ said) n true t d) :
    ∃ d', cancel d = (.ok (), d') ∧ (view τ inline).At total heard said n false t d' := by
  have plain : (ServerStep.rejected remark).IsPlain := hr
  obtain ⟨d', answered, at'⟩ := respond_at hp plain h
  have tag : d.tag = some (numbered n) := h.fits.tag
  refine ⟨d', ?_, at'⟩
  unfold cancel
  rw [tag]
  dsimp only
  rw [answered]
  rfl

theorem coding_answer :
    (coding inline praise).answer n step = (responseTo praise n step).octets := by
  rw [coding]

theorem transport_start : (transport (τ := τ)).start = start := by rw [transport]

theorem transport_respond : (transport (τ := τ)).respond = respond := by rw [transport]

theorem transport_cancel : (transport (τ := τ)).cancel = cancel := by rw [transport]

theorem realizes (hp : Sasl.IsPlain praise) (inline : Bool) (service : Sasl.TokenService τ) :
    (coding inline praise).Realizes (view τ inline) transport (tokenProvider service) service ""
    where
  start {scheme initial step total heard said n t d} hs h := by
    have next : (coding inline praise).next n = n + 1 := rfl
    rw [next] at h ⊢
    rw [transport_start]
    cases inline with
    | true =>
      have whole : ((coding true praise).begins (n + 1) scheme initial).flatMap Bytes.line =
        Bytes.line (commandLine (n + 1) scheme initial) := List.append_nil _
      rw [whole] at h
      exact start_whole hp hs rfl h
    | false =>
      cases initial with
      | none =>
        have whole : ((coding false praise).begins (n + 1) scheme none).flatMap Bytes.line =
            Bytes.line (commandLine (n + 1) scheme none) := List.append_nil _
        rw [whole] at h
        exact start_whole hp hs rfl h
      | some m =>
        have two : ((coding false praise).begins (n + 1) scheme (some m)).flatMap Bytes.line =
            Bytes.line (commandLine (n + 1) scheme none) ++ Bytes.line m := by
          rw [← List.append_nil (Bytes.line m)]
          rfl
        rw [two, List.append_assoc, List.append_assoc] at h
        exact start_prompted hp hs h
  respond hs h := by
    rw [coding_answer] at h
    rw [transport_respond]
    exact respond_at hp hs h
  cancel hr h := by
    rw [coding_answer] at h
    rw [transport_cancel]
    exact cancel_at hp hr h
  get identity limit h := by
    obtain ⟨stands, fits, rfl⟩ := h
    exact ⟨_, rfl, stands.wait _, ⟨fits.usable, fits.pending, fits.outstanding, fits.tag, fits.tags,
      fits.inline, fits.room⟩, rfl⟩
  invalidate identity h := by
    obtain ⟨stands, fits, rfl⟩ := h
    exact ⟨stands, ⟨fits.usable, fits.pending, fits.outstanding, fits.tag, fits.tags, fits.inline,
      fits.room⟩, rfl⟩

/-! ### Lines -/

def lineOf (line : String) : Line := .read "AUTHENTICATE" line ((Text.words line).drop 1)

theorem lineOf_commandLine {scheme : Scheme} {initial : Option String}
    (h : ∀ m ∈ initial, Sasl.Payload.Sendable m) (n : UInt32) :
    lineOf (commandLine n scheme initial) = .names scheme initial := by
  have verb : Text.words ("AUTHENTICATE " ++ (scheme.name ++ Sasl.argument initial)) =
      "AUTHENTICATE" :: Text.words (scheme.name ++ Sasl.argument initial) :=
    Text.words_spaced (w := "AUTHENTICATE") (by decide) (by decide) _
  unfold lineOf commandLine
  rw [Text.words_spaced (isText_numbered n).isSolid (numbered_ne n), verb, List.drop_one,
    List.tail_cons, Line.read_names h]

theorem isLine_commandLine {scheme : Scheme} {initial : Option String}
    (h : ∀ m ∈ initial, Sasl.Payload.Sendable m) (n : UInt32) :
    Text.IsLine (commandLine n scheme initial) := by
  unfold commandLine
  simp only [Text.isLine_append]
  exact ⟨⟨(isText_numbered n).isSolid.isLine, by decide⟩, by decide,
    Text.isLine_append.mp (Sasl.isLine_argument h)⟩

theorem lineOf_solid {text : String} (h : Text.IsSolid text) : lineOf text = .data text := by
  unfold lineOf
  rw [Text.words_solid h]
  split <;> rfl

theorem legible (inline : Bool) : (coding inline praise).Legible inline lineOf where
  isLine {n scheme initial} h := by
    cases inline with
    | true => exact List.forall_mem_singleton.mpr (isLine_commandLine h n)
    | false =>
      refine List.forall_mem_cons.mpr ⟨isLine_commandLine (by simp) n, fun line hl => ?_⟩
      exact (h line (Option.mem_toList.mp hl)).text.isSolid.isLine
  begins {n scheme initial} rest hi h := by
    cases inline with
    | true =>
      change Sasl.Message.read true (lineOf (commandLine n scheme initial) :: rest) = _
      rw [lineOf_commandLine h]
      rfl
    | false =>
      have named : lineOf (commandLine n scheme none) = .names scheme none :=
        lineOf_commandLine (by simp) n
      cases initial with
      | none =>
        change Sasl.Message.readFrom false none (lineOf (commandLine n scheme none) :: rest) = _
        rw [named, Sasl.Message.readFrom, ← hi]
        rfl
      | some m =>
        change Sasl.Message.readFrom false none
          (lineOf (commandLine n scheme none) :: lineOf m :: rest) = _
        rw [named, lineOf_solid (h m rfl).text.isSolid, Sasl.Message.readFrom, ← hi]
        rfl
  solid := lineOf_solid

end Dialogue
end MailClient.Imap
