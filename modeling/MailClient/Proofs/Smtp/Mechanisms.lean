import MailClient.Proofs.Sasl.Selection
import MailClient.Proofs.Text.Words
import MailClient.Smtp.Session

/-! Which schemes a mail server offers, and what comes of them. The extensions of a reply are a set:
its order is not looked at in the choice of a scheme, and neither is it in anything that is said
after the choice. -/
namespace MailClient.Smtp

variable {line : String} {lines : List String} {scheme : Sasl.Scheme} {es es' : List Extension}

/-- A line names a scheme after the keyword AUTH, or from behind the equals sign of `AUTH=` on. -/
inductive Announces (line : String) (scheme : Sasl.Scheme) : Prop where
  | spaced {keyword name : String} {names : List String} : Text.words line = keyword :: names →
      Text.upper keyword = "AUTH" → name ∈ names → Text.upper name = scheme.name →
      Announces line scheme
  | joined {sign tail name : String} {names : List String} :
      Text.words line = (sign ++ tail) :: names → Text.upper sign = "AUTH=" →
      name ∈ tail :: names → Text.upper name = scheme.name → Announces line scheme

structure Enumerates (lines : List String) (es : List Extension) : Prop where
  nodup : es.Nodup
  mem_iff : ∀ e, e ∈ es ↔ ∃ line ∈ lines, Extension.ofLine line = e

/-! ### Names -/

theorem ofName?_eq_some_iff {name : String} (h : Text.IsSolid name) :
    Sasl.Scheme.ofName? name = some scheme ↔ Text.upper name = scheme.name := by
  rw [Sasl.Scheme.ofName?, Text.trim_solid h]
  constructor
  · intro found
    simpa using List.find?_some found
  · intro same
    rw [same]
    cases scheme <;> decide

theorem mem_filterMap_ofName? {names : List String} (h : ∀ name ∈ names, Text.IsSolid name) :
    scheme ∈ names.filterMap Sasl.Scheme.ofName? ↔
      ∃ name ∈ names, Text.upper name = scheme.name := by
  rw [List.mem_filterMap]
  constructor
  · rintro ⟨name, hn, found⟩
    exact ⟨name, hn, (ofName?_eq_some_iff (h name hn)).mp found⟩
  · rintro ⟨name, hn, same⟩
    exact ⟨name, hn, (ofName?_eq_some_iff (h name hn)).mpr same⟩

theorem length_upper (s : String) : (Text.upper s).length = s.length := by
  simp [Text.upper, String.length_toList]

theorem afterWord?_sign {first tail : String} : Text.afterWord? "AUTH=" first = some tail ↔
    ∃ sign, first = sign ++ tail ∧ Text.upper sign = "AUTH=" := by
  have upperSign : Text.upper "AUTH=" = "AUTH=" := by decide
  have five : "AUTH=".length = 5 := by decide
  unfold Text.afterWord? Text.sameWord
  dsimp only
  rw [upperSign, five]
  constructor
  · intro h
    split at h
    next same =>
      cases h
      refine ⟨_, ?_, (beq_iff_eq.mp same).symm⟩
      rw [← String.toList_inj]
      simp
    · cases h
  · rintro ⟨sign, rfl, same⟩
    have length : sign.toList.length = 5 := by
      rw [String.length_toList, ← length_upper, same, five]
    have take : (sign ++ tail).toList.take 5 = sign.toList := by
      rw [String.toList_append, ← length, List.take_left]
    have drop : (sign ++ tail).toList.drop 5 = tail.toList := by
      rw [String.toList_append, ← length, List.drop_left]
    rw [take, drop, String.ofList_toList, String.ofList_toList, same]
    rfl

/-! ### Lines -/

variable {first sign tail : String} {rest : List String}

theorem schemes_joined (hw : Text.words line = (sign ++ tail) :: rest)
    (hs : Text.upper sign = "AUTH=") :
    (Extension.ofLine line).schemes = (tail :: rest).filterMap Sasl.Scheme.ofName? := by
  unfold Extension.ofLine
  rw [hw]
  dsimp only
  rw [afterWord?_sign.mpr ⟨sign, rfl, hs⟩]
  dsimp only [Extension.schemes]

theorem length_of_joined (hs : Text.upper sign = "AUTH=") :
    5 ≤ (Text.upper (sign ++ tail)).length := by
  have five : (Text.upper sign).length = 5 := by rw [hs]; decide
  rw [length_upper] at five ⊢
  rw [String.length_append, five]
  omega

theorem schemes_spaced (hw : Text.words line = first :: rest) (hk : Text.upper first = "AUTH") :
    (Extension.ofLine line).schemes = rest.filterMap Sasl.Scheme.ofName? := by
  have apart : Text.afterWord? "AUTH=" first = none := by
    rw [Option.eq_none_iff_forall_ne_some]
    intro tail ha
    obtain ⟨sign, rfl, hs⟩ := afterWord?_sign.mp ha
    have long : 5 ≤ (Text.upper (sign ++ tail)).length := length_of_joined hs
    rw [hk] at long
    exact absurd long (by decide)
  unfold Extension.ofLine
  rw [hw]
  dsimp only
  rw [apart]
  dsimp only
  split
  case h_2 => rfl
  all_goals simp_all

theorem schemes_other (hw : Text.words line = first :: rest)
    (ha : Text.afterWord? "AUTH=" first = none) (hk : Text.upper first ≠ "AUTH") :
    (Extension.ofLine line).schemes = [] := by
  unfold Extension.ofLine
  rw [hw]
  dsimp only
  rw [ha]
  dsimp only
  split
  case h_2 found => exact absurd found hk
  all_goals rfl

theorem schemes_blank (hw : Text.words line = []) : (Extension.ofLine line).schemes = [] := by
  unfold Extension.ofLine
  rw [hw]
  rfl

/-- The schemes in an extension are those that its line names. -/
theorem mem_schemes_ofLine : scheme ∈ (Extension.ofLine line).schemes ↔ Announces line scheme := by
  have solid : ∀ w ∈ Text.words line, Text.IsSolid w := fun w => Text.isSolid_of_mem_words
  have joinedSolid {sign tail : String} {rest : List String}
      (hw : Text.words line = (sign ++ tail) :: rest) :
      ∀ name ∈ tail :: rest, Text.IsSolid name := by
    rw [hw] at solid
    obtain ⟨first, others⟩ := List.forall_mem_cons.mp solid
    refine List.forall_mem_cons.mpr ⟨fun c hc => first c ?_, others⟩
    rw [String.toList_append]
    exact List.mem_append_right _ hc
  constructor
  · intro h
    cases hw : Text.words line with
    | nil =>
      rw [schemes_blank hw] at h
      cases h
    | cons first rest =>
      cases ha : Text.afterWord? "AUTH=" first with
      | some tail =>
        obtain ⟨sign, rfl, hs⟩ := afterWord?_sign.mp ha
        rw [schemes_joined hw hs, mem_filterMap_ofName? (joinedSolid hw)] at h
        obtain ⟨name, hn, named⟩ := h
        exact .joined hw hs hn named
      | none =>
        by_cases hk : Text.upper first = "AUTH"
        · rw [hw] at solid
          rw [schemes_spaced hw hk,
            mem_filterMap_ofName? (List.forall_mem_cons.mp solid).2] at h
          obtain ⟨name, hn, named⟩ := h
          exact .spaced hw hk hn named
        · rw [schemes_other hw ha hk] at h
          cases h
  · rintro (⟨hw, hk, hn, named⟩ | ⟨hw, hs, hn, named⟩)
    · rw [hw] at solid
      rw [schemes_spaced hw hk, mem_filterMap_ofName? (List.forall_mem_cons.mp solid).2]
      exact ⟨_, hn, named⟩
    · rw [schemes_joined hw hs, mem_filterMap_ofName? (joinedSolid hw)]
      exact ⟨_, hn, named⟩

/-! ### Sets of extensions -/

theorem nodup_eraseDups {α : Type} [BEq α] [LawfulBEq α] (l : List α) : l.eraseDups.Nodup := by
  cases l with
  | nil => simp
  | cons a l =>
    rw [List.eraseDups_cons, List.nodup_cons]
    exact ⟨by simp, nodup_eraseDups _⟩
termination_by l.length
decreasing_by exact Nat.lt_succ_of_le (List.length_filter_le _ l)

theorem enumerates_extensionsOfLines (lines : List String) :
    Enumerates lines (Server.extensionsOfLines lines) where
  nodup := nodup_eraseDups _
  mem_iff e := by
    rw [Server.extensionsOfLines, List.mem_eraseDups, List.mem_map]

theorem nodup_mechanisms (s : Server) : s.mechanisms.Nodup := nodup_eraseDups _

/-- What the server offers is what its lines name, in whatever order they are gone through. -/
theorem mem_mechanisms {s : Server} (h : Enumerates lines s.extensions) :
    scheme ∈ s.mechanisms ↔ ∃ line ∈ lines, Announces line scheme := by
  rw [Server.mechanisms, List.mem_eraseDups, List.mem_flatMap]
  constructor
  · rintro ⟨e, he, hs⟩
    obtain ⟨line, hl, rfl⟩ := (h.mem_iff e).mp he
    exact ⟨line, hl, mem_schemes_ofLine.mp hs⟩
  · rintro ⟨line, hl, announced⟩
    exact ⟨_, (h.mem_iff _).mpr ⟨line, hl, rfl⟩, mem_schemes_ofLine.mpr announced⟩

/-! ### Authentication -/

def Outcome.isNext {stage : Stage} : Outcome stage → Bool
  | .next _ => true
  | .lost .. => false

variable {τ : Type} {mechanisms mechanisms' : List Sasl.Scheme} {strategy : Sasl.Strategy}

theorem sameOffer_of_mem_iff (h : ∀ scheme, scheme ∈ mechanisms ↔ scheme ∈ mechanisms') :
    Sasl.SameOffer (mechanisms.map .offer) (mechanisms'.map .offer) := by
  intro scheme
  have offered (ms : List Sasl.Scheme) :
      (∃ c ∈ ms.map Sasl.Challenge.offer, c.scheme = scheme) ↔ scheme ∈ ms := by
    simp [Sasl.Challenge.offer]
  rw [offered, offered, h]

def concluded (ran : Except Error Sasl.Outcome × Sasl.Negotiation × Dialogue τ) :
    Except Error Sasl.Scheme × Wire.Stream × τ :=
  match ran.1 with
  | .ok (.authenticated scheme) => (.ok scheme, ran.2.2.stream, ran.2.2.tokens)
  | .ok .unauthenticated => (.error (.unsupported "AUTH"), ran.2.2.stream, ran.2.2.tokens)
  | .error e => (.error e, ran.2.2.stream, ran.2.2.tokens)

theorem authenticate_eq_concluded (host : String) (service : Sasl.TokenService τ)
    (limit : Duration) (s : Wire.Stream × τ) :
    authenticate host mechanisms strategy service limit s =
      concluded (Sasl.Authenticator.run
        { host := host, strategy := strategy, tokens := Dialogue.tokenProvider service }
        Dialogue.transport (mechanisms.map .offer) (.fresh, ⟨s.1, limit, false, s.2⟩)) := rfl

/-- Schemes in another order lead to the same exchange and to the same end of it. -/
theorem authenticate_of_mem_iff (host : String) (preference : Sasl.Strategy.IsPreference strategy)
    (service : Sasl.TokenService τ) (limit : Duration) (s : Wire.Stream × τ)
    (h : ∀ scheme, scheme ∈ mechanisms ↔ scheme ∈ mechanisms') (hm : mechanisms ≠ [])
    (hm' : mechanisms' ≠ []) :
    (authenticate host mechanisms strategy service limit s).2 =
        (authenticate host mechanisms' strategy service limit s).2 ∧
      (authenticate host mechanisms strategy service limit s).1.isOk =
        (authenticate host mechanisms' strategy service limit s).1.isOk := by
  have offers : mechanisms.map Sasl.Challenge.offer ≠ [] := by simpa using hm
  have offers' : mechanisms'.map Sasl.Challenge.offer ≠ [] := by simpa using hm'
  obtain ⟨left, result⟩ := Sasl.Authenticator.run_sameOffer
    { host := host, strategy := strategy, tokens := Dialogue.tokenProvider service }
    Dialogue.transport offers offers' (preference.congr (sameOffer_of_mem_iff h))
    ⟨s.1, limit, false, s.2⟩
  rw [authenticate_eq_concluded, authenticate_eq_concluded]
  rcases result with equal | ⟨failed, failed'⟩
  · rw [Prod.ext equal left]
    exact ⟨rfl, rfl⟩
  · unfold concluded
    rw [failed, failed', left]
    exact ⟨rfl, rfl⟩

/-- What the order of the extensions does not change. -/
theorem authenticate_enumerates (he : Enumerates lines es) (he' : Enumerates lines es')
    (host : String) (preference : Sasl.Strategy.IsPreference strategy)
    (service : Sasl.TokenService τ) (tokens : τ) (s : Session .connected) :
    let ended := (s.withExtensions es).authenticate host strategy service tokens
    let ended' := (s.withExtensions es').authenticate host strategy service tokens
    ended.1.stream = ended'.1.stream ∧ ended.1.isNext = ended'.1.isNext ∧ ended.2 = ended'.2 := by
  have same (scheme : Sasl.Scheme) : scheme ∈ (s.withExtensions es).server.mechanisms ↔
      scheme ∈ (s.withExtensions es').server.mechanisms := by
    rw [mem_mechanisms (s := (s.withExtensions es).server) he,
      mem_mechanisms (s := (s.withExtensions es').server) he']
  unfold Session.authenticate
  cases hm : (s.withExtensions es).server.mechanisms with
  | nil =>
    have none : (s.withExtensions es').server.mechanisms = [] := by
      rw [List.eq_nil_iff_forall_not_mem]
      intro scheme hs
      rw [← same, hm] at hs
      cases hs
    rw [none]
    exact ⟨rfl, rfl, rfl⟩
  | cons scheme schemes =>
    cases hm' : (s.withExtensions es').server.mechanisms with
    | nil =>
      have offered := (same scheme).mp (by simp [hm])
      rw [hm'] at offered
      cases offered
    | cons scheme' schemes' =>
      rw [hm, hm'] at same
      obtain ⟨left, result⟩ := authenticate_of_mem_iff host preference service s.ioLimit
        (s.stream, tokens) same nofun nofun
      change (authenticate host (scheme :: schemes) strategy service s.ioLimit
        (s.stream, tokens)).2 = _ at left
      dsimp only [Session.withExtensions]
      generalize authenticate host (scheme :: schemes) strategy service s.ioLimit
        (s.stream, tokens) = ran at left result ⊢
      generalize authenticate host (scheme' :: schemes') strategy service s.ioLimit
        (s.stream, tokens) = ran' at left result ⊢
      obtain ⟨r, stream, t⟩ := ran
      obtain ⟨r', stream', t'⟩ := ran'
      obtain ⟨rfl, rfl⟩ := Prod.mk.inj left
      cases r <;> cases r' <;> first | exact ⟨rfl, rfl, rfl⟩ | cases result

/-- A reply to EHLO that does not refuse leads to a session with the extensions of its lines. -/
theorem hello_enumerates {s : Session .connected} {reply : Reply} {stream : Wire.Stream}
    (h : request (.ehlo s.clientName) s.ioLimit s.stream = (.ok reply, stream))
    (success : reply.isSuccess = true) : ∃ es, Enumerates (reply.lines.drop 1) es ∧
      s.hello = .next (Session.withExtensions es { s with stream := stream }) := by
  refine ⟨_, enumerates_extensionsOfLines _, ?_⟩
  unfold Session.hello
  rw [h]
  exact if_pos success

/-- Which mechanisms a server offers, which candidates are selected for them, and what is said with
these, for any reply to EHLO and for any order of the extensions in it. -/
theorem mechanism_selection (τ : Type) :
    (∀ (reply : Reply) (s : Server), Enumerates (reply.lines.drop 1) s.extensions →
      s.mechanisms.Nodup ∧ ∀ scheme,
        scheme ∈ s.mechanisms ↔ ∃ line ∈ reply.lines.drop 1, Announces line scheme) ∧
    (∀ configured host offered,
      (Sasl.Strategy.Selects configured offered
          (Sasl.Strategy.inOrder configured host offered) ∧
        (Sasl.Strategy.inOrder configured host offered).Sublist configured) ∧
      (Sasl.Strategy.Selects configured offered
          (Sasl.Strategy.strongestFirst configured host offered) ∧
        (Sasl.Strategy.strongestFirst configured host offered).Pairwise fun a b =>
          b.scheme.strength ≤ a.scheme.strength)) ∧
    (∀ (s : Session .connected) (reply : Reply) (stream : Wire.Stream),
      request (.ehlo s.clientName) s.ioLimit s.stream = (.ok reply, stream) →
      reply.isSuccess = true → ∃ es, Enumerates (reply.lines.drop 1) es ∧
        s.hello = .next (Session.withExtensions es { s with stream := stream })) ∧
    ∀ (reply : Reply) (es es' : List Extension) (host : String) (strategy : Sasl.Strategy)
      (service : Sasl.TokenService τ) (tokens : τ) (s : Session .connected),
      Enumerates (reply.lines.drop 1) es → Enumerates (reply.lines.drop 1) es' →
      strategy.IsPreference →
      let ended := (s.withExtensions es).authenticate host strategy service tokens
      let ended' := (s.withExtensions es').authenticate host strategy service tokens
      ended.1.stream = ended'.1.stream ∧ ended.1.isNext = ended'.1.isNext ∧ ended.2 = ended'.2 := by
  refine ⟨?_, ?_, ?_, ?_⟩
  · intro reply s h
    exact ⟨nodup_mechanisms s, fun scheme => mem_mechanisms h⟩
  · intro configured host offered
    exact ⟨⟨Sasl.Strategy.selects_inOrder, List.filter_sublist⟩,
      Sasl.Strategy.selects_strongestFirst, Sasl.Strategy.pairwise_strongestFirst⟩
  · intro s reply stream h success
    exact hello_enumerates h success
  · intro reply es es' host strategy service tokens s he he' preference
    exact authenticate_enumerates he he' host preference service tokens s

def twoLinesReply : Reply :=
  ⟨250, ["mx.example", "AUTH=LOGIN PLAIN", "auth plain cram-md5", "SIZE"]⟩

def twoLinesFeed : List Wire.Arrival := [.data (Bytes.ofText
  "250-mx.example\r\n250-AUTH=LOGIN PLAIN\r\n250-auth plain cram-md5\r\n250 SIZE\r\n235 ok\r\n")]

def loginOrPlain : List Sasl.Candidate := [⟨.login, .password "u" "p"⟩, ⟨.plain, .password "u" "p"⟩]

/-- The extensions are gone through in one order and in the other. Both times the stronger of the
two schemes that are configured is tried. -/
theorem mechanism_selection_two_lines :
    let s : Session .connected :=
      ⟨.start twoLinesFeed .unlimited, ⟨"mx", []⟩, "c", Duration.seconds 1⟩
    let inTurn := [.auth [.login, .plain], .auth [.plain, .cramMd5], .size none]
    let strategy := Sasl.Strategy.strongestFirst loginOrPlain
    ∃ stream, request (.ehlo "c") (Duration.seconds 1) s.stream = (.ok twoLinesReply, stream) ∧
      twoLinesReply.isSuccess = true ∧
      Enumerates (twoLinesReply.lines.drop 1) inTurn ∧
      Enumerates (twoLinesReply.lines.drop 1) inTurn.reverse ∧ strategy.IsPreference ∧
      ∃ s', s.hello = .next s' ∧
        ((s'.withExtensions inTurn).authenticate "mx" strategy (.empty Unit) ()).1.stream =
          ((s'.withExtensions inTurn.reverse).authenticate "mx" strategy (.empty Unit)
            ()).1.stream := by
  intro s inTurn strategy
  have replied : (request (.ehlo "c") (Duration.seconds 1) s.stream).1 = .ok twoLinesReply := by
    with_unfolding_all rfl
  have asked : request (.ehlo "c") (Duration.seconds 1) s.stream =
      (.ok twoLinesReply, (request (.ehlo "c") (Duration.seconds 1) s.stream).2) :=
    Prod.ext replied rfl
  have listed : Enumerates (twoLinesReply.lines.drop 1) inTurn := by
    have read : Server.extensionsOfLines (twoLinesReply.lines.drop 1) = inTurn := by decide +kernel
    exact read ▸ enumerates_extensionsOfLines _
  have backwards : Enumerates (twoLinesReply.lines.drop 1) inTurn.reverse :=
    ⟨(List.reverse_perm inTurn).nodup_iff.mpr listed.nodup,
      fun e => by rw [List.mem_reverse, listed.mem_iff]⟩
  have preference : strategy.IsPreference := .strongestFirst loginOrPlain
  obtain ⟨-, -, greeted, same⟩ := mechanism_selection Unit
  obtain ⟨es, -, hello⟩ := greeted s twoLinesReply _ asked rfl
  exact ⟨_, asked, rfl, listed, backwards, preference, _, hello,
    (same twoLinesReply _ _ "mx" strategy (.empty Unit) () _ listed backwards preference).1⟩

end MailClient.Smtp
