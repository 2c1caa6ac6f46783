import MailClient.Proofs.Smtp.Replies
import MailClient.Smtp.Opening

/-! What a mail client says before encryption begins: EHLO, and then one of HELO and STARTTLS. -/
namespace MailClient.Smtp

def Reply.announcesTls (r : Reply) : Bool :=
  (r.lines.drop 1).any fun line => (Text.words line).head?.map Text.upper == some "STARTTLS"

theorem Extension.ofLine_eq_startTls_iff {line : String} : ofLine line = .startTls ↔
    (Text.words line).head?.map Text.upper = some "STARTTLS" := by
  unfold ofLine
  cases Text.words line with
  | nil => simp
  | cons first rest =>
    rw [List.head?_cons, Option.map_some, Option.some_inj]
    dsimp only
    split
    next scheme ha =>
      refine iff_of_false (by simp) fun name => ?_
      -- The words differ in their first letters.
      have letters : first.toList.map Char.toUpper = "STARTTLS".toList := by
        rw [← name, Text.upper, String.toList_ofList]
      have start : Text.upper (String.ofList (first.toList.take 5)) = "START" := by
        rw [Text.upper, String.toList_ofList, List.map_take, letters]
        rfl
      simp only [Text.afterWord?, Text.sameWord, show "AUTH=".length = 5 from rfl, start] at ha
      cases ha
    · split <;> simp_all

theorem Server.supports_startTls (name : String) (hello : Reply) :
    (Server.mk name (extensionsOfLines (hello.lines.drop 1))).supports .startTls =
      hello.announcesTls := by
  rw [Bool.eq_iff_iff, supports, List.contains_iff_mem, extensionsOfLines, List.mem_eraseDups,
    List.mem_map, Reply.announcesTls, List.any_eq_true]
  simp only [Extension.ofLine_eq_startTls_iff, beq_iff_eq]

namespace Session

def afterHello (name : String) (hello : Reply) : Bytes :=
  if hello.isSuccess then if hello.announcesTls then Command.startTls.encode else []
  else if isUnknownCommand hello.code then (Command.helo name).encode else []

def speech (name : String) : List Reply → Bytes
  | [] => []
  | greeting :: heard =>
    if greeting.code = greetingCode then
      (Command.ehlo name).encode ++ heard.head?.elim [] (afterHello name)
    else []

def Consent (items : List Reply) : Prop :=
  ∃ greeting hello reply, items = [greeting, hello, reply] ∧ greeting.code = greetingCode ∧
    hello.isSuccess = true ∧ hello.announcesTls = true ∧ reply.isSuccess = true

def upgrade (name : String) : Wire.Upgrade Reply := ⟨speech name, Consent⟩

theorem afterHello_cases (name : String) (hello : Reply) :
    afterHello name hello <+: (Command.helo name).encode ∨
      afterHello name hello <+: Command.startTls.encode := by
  unfold afterHello
  split
  · split
    · exact .inr (List.prefix_refl _)
    · exact .inr List.nil_prefix
  · split
    · exact .inl (List.prefix_refl _)
    · exact .inl List.nil_prefix

/-- No more than two commands go out in the clear. -/
theorem speech_cases (name : String) (items : List Reply) :
    speech name items <+: (Command.ehlo name).encode ++ (Command.helo name).encode ∨
      speech name items <+: (Command.ehlo name).encode ++ Command.startTls.encode := by
  unfold speech
  split
  · exact .inl List.nil_prefix
  next greeting heard =>
    split
    · cases heard with
      | nil => exact .inl (List.prefix_self_append_iff.mpr List.nil_prefix)
      | cons hello =>
        exact (afterHello_cases name hello).imp List.prefix_self_append_iff.mpr
          List.prefix_self_append_iff.mpr
    · exact .inl List.nil_prefix

inductive Introduced (name : String) (stream : Wire.Stream) : Outcome .connected → Prop where
  | lost {e after} : (upgrade name).Kept Reading.framing stream after →
      Introduced name stream (.lost e after)
  | plain {session} : (upgrade name).Kept Reading.framing stream session.stream →
      session.server.extensions = [] → Introduced name stream (.next session)
  | extended {session greeting hello} :
      (upgrade name).Keeps Reading.framing stream [greeting, hello] (Command.ehlo name).encode
        session.stream →
      greeting.code = greetingCode → hello.isSuccess = true →
      session.server.extensions = Server.extensionsOfLines (hello.lines.drop 1) →
      Introduced name stream (.next session)

variable {name : String} {stream after : Wire.Stream} {session : Session .connected}
  {greeting hello : Reply}

theorem speech_greeting (hg : greeting.code = greetingCode) :
    (upgrade name).speech [greeting] = (Command.ehlo name).encode := by
  simp [upgrade, speech, hg]

theorem speech_hello (hg : greeting.code = greetingCode) (later : List Reply) :
    (upgrade name).speech (greeting :: hello :: later) =
      (Command.ehlo name).encode ++ afterHello name hello := by
  simp [upgrade, speech, hg]

theorem command_eq {next : Stage} (c : Command) (session : Session .connected) :
    (session.command c : Outcome next) = match request c session.ioLimit session.stream with
      | (.error e, stream) => .lost e stream
      | (.ok reply, stream) =>
        match reply.error? with
        | some e => .lost e stream
        | none => .next { session with stream := stream } := by
  have whole : (session.command c : Outcome next) =
      session.follow (Action.bind (request c session.ioLimit) accepted) := rfl
  rw [whole, follow, Action.bind]
  rcases request c session.ioLimit session.stream with ⟨e | reply, stream⟩
  · rfl
  · dsimp only
    rw [accepted]
    cases reply.error? with
    | none => rfl
    | some e => rfl

/-- A server that does not know EHLO is given HELO, and has announced nothing. -/
theorem introduced_plain (h : (upgrade session.clientName).Keeps Reading.framing stream
      [greeting, hello] (Command.ehlo session.clientName).encode session.stream)
    (hg : greeting.code = greetingCode) (hs : hello.isSuccess = false)
    (hu : isUnknownCommand hello.code = true) :
    Introduced session.clientName stream
      ((session.command (.helo session.clientName)).bind fun s => .next (s.withExtensions [])) := by
  have may : (Command.ehlo session.clientName).encode ++
      (Command.helo session.clientName).encode <+:
      (upgrade session.clientName).speech [greeting, hello] := by
    rw [speech_hello hg, afterHello, hs, hu]
    exact List.prefix_refl _
  have kept := kept_request h may session.ioLimit
  rw [command_eq]
  rcases hr : request (.helo session.clientName) session.ioLimit session.stream with
    ⟨e | reply, after⟩
  · rw [hr] at kept
    exact .lost kept
  · rw [hr] at kept
    dsimp only
    cases reply.error? with
    | none => exact .plain kept rfl
    | some e => exact .lost kept

theorem introduced_hello
    (h : (upgrade session.clientName).Keeps Reading.framing stream [greeting] [] session.stream)
    (hg : greeting.code = greetingCode) :
    Introduced session.clientName stream session.hello := by
  have may : [] ++ (Command.ehlo session.clientName).encode <+:
      (upgrade session.clientName).speech [greeting] := by
    rw [speech_greeting hg]
    exact List.prefix_refl _
  have kept := kept_request h may session.ioLimit
  unfold hello
  split
  next he =>
    rw [he] at kept
    exact .lost kept
  next hello after hr =>
    have keeps := keeps_request h may hr
    rw [hr] at kept
    rw [List.nil_append, List.singleton_append] at keeps
    dsimp only
    split
    next hs => exact .extended keeps hg hs rfl
    next hs =>
      split
      next hu =>
        have hs : hello.isSuccess = false := by simpa using hs
        exact @introduced_plain stream { session with stream := after } greeting hello keeps hg hs
          hu
      next hu => exact .lost kept

theorem introduced (stream : Wire.Stream) (s : Settings) :
    Introduced s.clientName stream (introduce stream s) := by
  have fresh : (upgrade s.clientName).Keeps Reading.framing stream [] [] stream := .begun
  have written := written_readReply s.ioLimit stream
  unfold introduce start
  split
  next he =>
    rw [he] at written
    exact .lost ⟨_, _, _, fresh, written⟩
  next greeting after hr =>
    have heard := fresh.hears (talked_readReply hr)
    rw [List.nil_append] at heard
    split
    next hg =>
      let session : Session .connected :=
        ⟨after, ⟨serverName greeting, []⟩, s.clientName, s.ioLimit⟩
      have heard : (upgrade session.clientName).Keeps _ stream _ _ session.stream := heard
      rw [Outcome.bind]
      exact introduced_hello heard hg
    next hg => exact .lost heard.kept

theorem guarded_startTls {host : String} {s : Settings} (h : Introduced s.clientName stream
      (.next session)) :
    (upgrade s.clientName).Guarded Reading.framing host (.stream stream)
      (session.startTls host) := by
  cases h with
  | plain kept none =>
    unfold startTls
    rw [if_pos (by simp [Server.supports, none])]
    exact .failed kept
  | @extended _ greeting hello keeps hg hs extensions =>
    have announced : session.server.supports .startTls = hello.announcesTls := by
      rw [← Server.supports_startTls session.server.name, ← extensions]
    unfold startTls
    split
    next no => exact .failed keeps.kept
    next yes =>
      have ha : hello.announcesTls = true := by simpa [announced] using yes
      have whole (later : List Reply) :
          (upgrade s.clientName).speech (greeting :: hello :: later) =
            (Command.ehlo s.clientName).encode ++ Command.startTls.encode := by
        simp [speech_hello hg, afterHello, hs, ha]
      have may : (Command.ehlo s.clientName).encode ++ Command.startTls.encode <+:
          (upgrade s.clientName).speech [greeting, hello] := by
        simp only [whole, List.prefix_refl]
      have kept := kept_request keeps may session.ioLimit
      rcases hr : request .startTls session.ioLimit session.stream with ⟨e | reply, after⟩
      · rw [hr] at kept
        exact .failed kept
      · rw [hr] at kept
        dsimp only
        cases he : reply.error? with
        | some e => exact .failed kept
        | none =>
          dsimp only
          have agreed := keeps_request keeps may hr
          rw [← whole [reply]] at agreed
          split
          next hb =>
            unfold handshake
            split
            next valid =>
              refine .handshake agreed ?_ (List.isEmpty_iff.mp hb) valid
              exact ⟨greeting, hello, reply, rfl, hg, hs, ha, by simpa [Reply.error?] using he⟩
            next => exact .failed kept
          next => exact .failed kept

/-- A session that asks for encryption never goes on in the clear. -/
theorem guarded_connect (dialled : Wire.Dialled) {s : Settings} (h : s.security = .startTls) :
    (upgrade s.clientName).Guarded Reading.framing s.host dialled (connect dialled s) := by
  unfold connect
  cases dialled with
  | fault => exact .undialled (by simp)
  | expired => exact .undialled (by simp)
  | stream stream =>
    have met := introduced stream s
    rw [h]
    dsimp only
    cases ho : introduce stream s with
    | next session =>
      rw [ho] at met
      exact guarded_startTls met
    | lost e after =>
      rw [ho] at met
      cases met with
      | lost kept => exact .failed kept

theorem guarded_connectAs {τ : Type} (dialled : Wire.Dialled) {s : Settings}
    (strategy : Sasl.Strategy) (service : Sasl.TokenService τ) (tokens : τ)
    (h : s.security = .startTls) : (upgrade s.clientName).Guarded Reading.framing s.host dialled
      (connectAs dialled s strategy service tokens).1 := by
  have guarded := guarded_connect dialled h
  unfold connectAs
  generalize connect dialled s = opening at guarded ⊢
  cases guarded with
  | undialled no => exact .undialled no
  | failed kept => exact .failed kept
  | handshake talked consent buffer valid => exact .handshake talked consent buffer valid

end Session
end MailClient.Smtp
