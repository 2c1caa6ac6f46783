import Mathlib.Data.List.TakeWhile
import MailClient.Proofs.Smtp.Content
import MailClient.Proofs.Text.Words
import MailClient.Smtp.Session

/-! Envelope commands, for any address that is accepted. What an address may not hold is just what
its place on the line does not allow: a server that goes by line ends, angle brackets and spaces
finds one command there, with the address and the parameters that were given to it. -/
namespace MailClient.Smtp

structure IsMailbox (s : String) : Prop where
  clean : ∀ c ∈ s.toList, Text.isControl c = false ∧ Text.isBlank c = false ∧ c ≠ '<' ∧ c ≠ '>'
  parts : ∃ user domain : String, s = user ++ "@" ++ domain ∧ user ≠ "" ∧ domain ≠ ""
  once : s.toList.count '@' = 1

theorem problem?_of_parts {s : String} {user domain : List Char}
    (hs : s.toList = user ++ '@' :: domain) (hu : '@' ∉ user) : Address.problem? s =
      if s.toList.any Address.isForbidden then some (.forbidden s)
      else if user.isEmpty || domain.isEmpty then some .emptyPart
      else if domain.contains '@' then some .severalAts
      else none := by
  have other : ∀ c ∈ user, (c != '@') = true := by
    intro c hc
    exact bne_iff_ne.mpr fun he => hu (he ▸ hc)
  have nonempty : s.toList.isEmpty = false := by simp [hs]
  have drop : s.toList.dropWhile (· != '@') = '@' :: domain := by
    rw [hs, List.dropWhile_append_of_pos other]
    rfl
  have take : s.toList.takeWhile (· != '@') = user := by
    rw [hs, List.takeWhile_append_of_pos other]
    simp
  unfold Address.problem?
  dsimp only
  rw [nonempty, drop, take, if_neg Bool.false_ne_true]

theorem problem?_of_no_at {s : String} (h : '@' ∉ s.toList) : Address.problem? s ≠ none := by
  have drop : s.toList.dropWhile (· != '@') = [] := by
    rw [List.dropWhile_eq_nil_iff]
    intro c hc
    exact bne_iff_ne.mpr fun he => h (he ▸ hc)
  unfold Address.problem?
  dsimp only
  rw [drop]
  split_ifs <;> simp

theorem any_isForbidden {s : String} : s.toList.any Address.isForbidden = false ↔
    ∀ c ∈ s.toList, Text.isControl c = false ∧ Text.isBlank c = false ∧ c ≠ '<' ∧ c ≠ '>' := by
  simp [Address.isForbidden, and_assoc]

theorem problem?_eq_none_iff {s : String} : Address.problem? s = none ↔ IsMailbox s := by
  constructor
  · intro h
    by_cases found : '@' ∈ s.toList
    · obtain ⟨user, domain, hs, hu⟩ := List.eq_append_cons_of_mem found
      rw [problem?_of_parts hs hu] at h
      split_ifs at h with forbidden empty several
      simp only [Bool.or_eq_true, not_or, List.isEmpty_iff] at empty
      have once : domain.count '@' = 0 := by simpa [List.count_eq_zero] using several
      refine ⟨any_isForbidden.mp (by simpa using forbidden), ?_, ?_⟩
      · refine ⟨String.ofList user, String.ofList domain, ?_, ?_, ?_⟩
        · rw [← String.toList_inj]
          simp [hs]
        · simpa using empty.1
        · simpa using empty.2
      · simp [hs, List.count_append, List.count_eq_zero.mpr hu, once]
    · exact absurd h (problem?_of_no_at found)
  · rintro ⟨clean, ⟨user, domain, rfl, hu, hd⟩, once⟩
    have hs : (user ++ "@" ++ domain).toList = user.toList ++ '@' :: domain.toList := by simp
    rw [hs, List.count_append, List.count_cons_self] at once
    have free : '@' ∉ user.toList := List.count_eq_zero.mp (by omega)
    have single : '@' ∉ domain.toList := List.count_eq_zero.mp (by omega)
    rw [problem?_of_parts hs free, any_isForbidden.mpr clean]
    simp [hu, hd, single]

theorem Address.isLine (a : Address) : Text.IsLine a.text := by
  have solid : Text.IsSolid a.text := by
    intro c hc
    exact ((problem?_eq_none_iff.mp a.valid).clean c hc).2.1
  exact solid.isLine

theorem Command.isLine_path (a : Address) : Text.IsLine (path a) :=
  Text.isLine_append.mpr ⟨Text.isLine_append.mpr ⟨by decide, a.isLine⟩, by decide⟩

structure Envelope where
  verb : Bytes
  path : String
  body : Option String
  size : Option Nat
  deriving DecidableEq, Repr

namespace Envelope

/-! ### Reading -/

def upTo? (b : UInt8) (bs : Bytes) : Option (Bytes × Bytes) :=
  match bs.dropWhile (· != b) with
  | [] => none
  | _ :: behind => some (bs.takeWhile (· != b), behind)

def number? (bs : Bytes) : Option Nat :=
  let cs := bs.map latin1
  if cs.isEmpty || !cs.all Char.isDigit then none else some (Text.digitsValue 0 cs)

/-- One more parameter. Each of them may stand once, and there are no others. -/
def withParameter? (e : Envelope) (word : Bytes) : Option Envelope := do
  let (name, value) ← upTo? (octet '=') word
  if name = Bytes.ofText "BODY" ∧ e.body = none then
    return { e with body := some (← Text.Utf8.text? value) }
  else if name = Bytes.ofText "SIZE" ∧ e.size = none then
    return { e with size := some (← number? value) }
  else none

def words (bs : Bytes) : List Bytes := (bs.splitOn (octet ' ')).filter fun word => !word.isEmpty

/-- The path stands in the first angle brackets, and parameters between spaces behind it. -/
def ofLine? (line : Bytes) : Option Envelope := do
  let (verb, rest) ← upTo? (octet '<') line
  let (path, rest) ← upTo? (octet '>') rest
  (words rest).foldlM withParameter? ⟨verb, ← Text.Utf8.text? path, none, none⟩

def read? (bs : Bytes) : Option (Envelope × Bytes) := do
  let (line, rest) ← Message.nextLine? bs
  return (← ofLine? line, rest)

variable {b : UInt8} {word bs rest : Bytes}

theorem upTo?_append (h : b ∉ word) (rest : Bytes) :
    upTo? b (word ++ b :: rest) = some (word, rest) := by
  have other : ∀ c ∈ word, (c != b) = true := by
    intro c hc
    exact bne_iff_ne.mpr fun he => h (he ▸ hc)
  rw [upTo?, List.dropWhile_append_of_pos other, List.takeWhile_append_of_pos other]
  simp

theorem number?_toString (n : Nat) : number? (Bytes.ofText (toString n)) = some n := by
  rw [number?, Text.map_latin1_toString]
  have digits : (Nat.toDigits 10 n).all Char.isDigit = true := by
    rw [List.all_eq_true]
    intro c hc
    exact Nat.isDigit_of_mem_toDigits (by decide) (by decide) hc
  simp [digits, Text.digitsValue_eq, Nat.ofDigitChars_ten_toDigits]

theorem words_space (bs : Bytes) : words (octet ' ' :: bs) = words bs := by
  have split : ([] ++ octet ' ' :: bs).splitOn (octet ' ') = [] :: bs.splitOn (octet ' ') :=
    List.splitOn_append_cons_self_of_not_mem List.not_mem_nil bs
  rw [words, ← List.nil_append (octet ' ' :: bs), split]
  rfl

/-- A word ends where the next space or the line does. -/
theorem words_append (hw : octet ' ' ∉ word) (hne : word ≠ [])
    (hr : ∀ b ∈ rest.head?, b = octet ' ') : words (word ++ rest) = word :: words rest := by
  have kept : (!word.isEmpty) = true := by simpa using hne
  cases rest with
  | nil => simp [words, List.splitOn_eq_singleton hw, kept]
  | cons b rest =>
    obtain rfl := hr b rfl
    rw [words_space, words, List.splitOn_append_cons_self_of_not_mem hw]
    exact List.filter_cons_of_pos kept

/-! ### Writing -/

def parameter (name : Bytes) : Option Bytes → Bytes
  | none => []
  | some value => octet ' ' :: (name ++ octet '=' :: value)

theorem ofText_parameter (name : String) (value : Option String) :
    Bytes.ofText (Command.parameter name value) =
      parameter (Bytes.ofText name) (value.map Bytes.ofText) := by
  cases value with
  | none => rfl
  | some v =>
    simp only [Command.parameter, Text.Utf8.ofText_append, Option.map_some, parameter]
    simp [Bytes.ofText]
    rfl

theorem head_parameter (name : Bytes) (value : Option Bytes) :
    ∀ b ∈ (parameter name value).head?, b = octet ' ' := by
  cases value with
  | none => nofun
  | some value =>
    rintro b ⟨⟩
    rfl

/-- A parameter is one more word on the line, if there is one. -/
theorem words_parameter {name : Bytes} {value : Option Bytes} (hn : octet ' ' ∉ name)
    (hv : ∀ v ∈ value, octet ' ' ∉ v) (hr : ∀ b ∈ rest.head?, b = octet ' ') :
    words (parameter name value ++ rest) =
      (value.map fun v => name ++ octet '=' :: v).toList ++ words rest := by
  cases value with
  | none => rfl
  | some v =>
    have free : octet ' ' ∉ name ++ octet '=' :: v := by
      simp only [List.mem_append, List.mem_cons, not_or]
      exact ⟨hn, by decide, hv v rfl⟩
    rw [parameter, List.cons_append, words_space, words_append free (by simp) hr]
    rfl

theorem withParameter?_body (e : Envelope) (he : e.body = none) (v : String) :
    e.withParameter? (Bytes.ofText "BODY" ++ octet '=' :: Bytes.ofText v) =
      some { e with body := some v } := by
  have named : octet '=' ∉ Bytes.ofText "BODY" := by decide
  simp [withParameter?, upTo?_append named, he]

theorem withParameter?_size (e : Envelope) (he : e.size = none) {digits : Bytes} {n : Nat}
    (hn : number? digits = some n) :
    e.withParameter? (Bytes.ofText "SIZE" ++ octet '=' :: digits) =
      some { e with size := some n } := by
  have named : octet '=' ∉ Bytes.ofText "SIZE" := by decide
  have other : Bytes.ofText "SIZE" ≠ Bytes.ofText "BODY" := by decide
  simp [withParameter?, upTo?_append named, he, other, hn]

/-! ### Commands -/

theorem read?_line (h : Bytes.lf ∉ bs) (rest : Bytes) :
    read? (bs ++ Bytes.crlf ++ rest) = (ofLine? bs).map fun e => (e, rest) := by
  rw [read?, Message.nextLine?_append h, Option.bind_eq_bind, Option.bind_some]
  dsimp only
  cases ofLine? bs <;> rfl

/-- The path is the address, whatever parameters come after it. -/
theorem ofLine?_path (a : Address) {verb : String} (hv : octet '<' ∉ Bytes.ofText verb)
    (bs : Bytes) : ofLine? (Bytes.ofText (verb ++ Command.path a) ++ bs) =
      (words bs).foldlM withParameter? ⟨Bytes.ofText (verb ++ ":"), a.text, none, none⟩ := by
  have clean := (problem?_eq_none_iff.mp a.valid).clean
  have start : octet '<' ∉ Bytes.ofText (verb ++ ":") := by
    rw [Text.Utf8.ofText_append, List.mem_append, not_or]
    exact ⟨hv, by decide⟩
  have stop : octet '>' ∉ Bytes.ofText a.text := by
    rw [Text.Utf8.octet_mem_ofText_iff (by decide)]
    exact fun h => (clean _ h).2.2.2 rfl
  have line : Bytes.ofText (verb ++ Command.path a) ++ bs =
      Bytes.ofText (verb ++ ":") ++ octet '<' :: (Bytes.ofText a.text ++ octet '>' :: bs) := by
    simp only [Command.path, Text.Utf8.ofText_append, List.append_assoc]
    rfl
  rw [line, ofLine?, upTo?_append start]
  simp [upTo?_append stop]

/-- The parameters of a sender are read as what they are given for. -/
theorem foldlM_parameters (verb : Bytes) (path : String) {body : Option String}
    (hb : ∀ v ∈ body, Text.IsSolid v) (size : Option Nat) :
    (words (parameter (Bytes.ofText "BODY") (body.map Bytes.ofText) ++
      parameter (Bytes.ofText "SIZE") (size.map fun n => Bytes.ofText (toString n)))).foldlM
        withParameter? ⟨verb, path, none, none⟩ = some ⟨verb, path, body, size⟩ := by
  have bodyFree : ∀ v ∈ body.map Bytes.ofText, octet ' ' ∉ v := by
    intro v hv
    obtain ⟨text, ht, rfl⟩ := Option.map_eq_some_iff.mp hv
    rw [Text.Utf8.octet_mem_ofText_iff (by decide)]
    intro hs
    exact absurd (hb text ht _ hs) (by decide)
  have sizeFree : ∀ v ∈ size.map fun n => Bytes.ofText (toString n), octet ' ' ∉ v := by
    intro v hv
    obtain ⟨n, -, rfl⟩ := Option.map_eq_some_iff.mp hv
    rw [Text.Utf8.octet_mem_ofText_iff (by decide)]
    intro hs
    exact absurd (Text.isDigit_of_mem_toString hs) (by decide)
  have last : words (parameter (Bytes.ofText "SIZE")
      (size.map fun n => Bytes.ofText (toString n)) ++ []) = _ :=
    words_parameter (by decide) sizeFree nofun
  have first : ((body.map Bytes.ofText).map fun v =>
      Bytes.ofText "BODY" ++ octet '=' :: v).toList.foldlM
        withParameter? ⟨verb, path, none, none⟩ = some ⟨verb, path, body, none⟩ := by
    cases body with
    | none => rfl
    | some v =>
      change (withParameter? _ _).bind some = _
      rw [withParameter?_body _ rfl]
      rfl
  have second : ((size.map fun n => Bytes.ofText (toString n)).map fun v =>
      Bytes.ofText "SIZE" ++ octet '=' :: v).toList.foldlM
        withParameter? ⟨verb, path, body, none⟩ = some ⟨verb, path, body, size⟩ := by
    cases size with
    | none => rfl
    | some n =>
      change (withParameter? _ _).bind some = _
      rw [withParameter?_size _ rfl (number?_toString n)]
      rfl
  have none : words [] = [] := rfl
  rw [List.append_nil, none, List.append_nil] at last
  rw [words_parameter (by decide) bodyFree (head_parameter _ _), last, List.foldlM_append, first]
  exact second

theorem isLine_parameter {name : String} (hn : Text.IsLine name) {value : Option String}
    (hv : ∀ v ∈ value, Text.IsLine v) : Text.IsLine (Command.parameter name value) := by
  cases value with
  | none => exact nofun
  | some v =>
    have named : Text.IsLine (" " ++ name ++ "=") :=
      Text.isLine_append.mpr ⟨Text.isLine_append.mpr ⟨by decide, hn⟩, by decide⟩
    exact Text.isLine_append.mpr ⟨named, hv v rfl⟩

theorem isLine_toString (n : Nat) : Text.IsLine (toString n) := by
  intro c hc
  have digit := Text.isDigit_of_mem_toString hc
  constructor
  · rintro rfl
    exact absurd digit (by decide)
  · rintro rfl
    exact absurd digit (by decide)

/-- A command takes one line: a carriage return or a line feed is found only in its line end. -/
def IsOneLine (c : Command) : Prop :=
  ∃ line, c.encode = line ++ Bytes.crlf ∧ ∀ b ∈ line, b ≠ Bytes.cr ∧ b ≠ Bytes.lf

theorem isOneLine_of_isLine {c : Command} (h : Text.IsLine (c.verb ++ c.arguments)) :
    IsOneLine c := ⟨_, rfl, fun _ hb => h.octets hb⟩

theorem read?_encode {c : Command} (h : Text.IsLine (c.verb ++ c.arguments)) (rest : Bytes) :
    read? (c.encode ++ rest) =
      (ofLine? (Bytes.ofText (c.verb ++ c.arguments))).map fun e => (e, rest) := by
  have ends : Bytes.lf ∉ Bytes.ofText (c.verb ++ c.arguments) := fun hb => (h.octets hb).2 rfl
  exact read?_line ends rest

theorem isLine_mail (a : Address) {body : Option String} (hb : ∀ v ∈ body, Text.IsSolid v)
    (size : Option Nat) :
    Text.IsLine ((Command.mail a body size).verb ++ (Command.mail a body size).arguments) := by
  have sizes : ∀ v ∈ size.map toString, Text.IsLine v := by
    intro v hv
    obtain ⟨n, -, rfl⟩ := Option.map_eq_some_iff.mp hv
    exact isLine_toString n
  have bodies : Text.IsLine (Command.parameter "BODY" body) :=
    isLine_parameter (by decide) fun v hv => (hb v hv).isLine
  have verb : Text.IsLine "MAIL FROM" := by decide
  refine Text.isLine_append.mpr ⟨verb, ?_⟩
  refine Text.isLine_append.mpr ⟨Text.isLine_append.mpr ⟨Command.isLine_path a, bodies⟩, ?_⟩
  exact isLine_parameter (by decide) sizes

theorem isLine_rcpt (a : Address) :
    Text.IsLine ((Command.rcpt a).verb ++ (Command.rcpt a).arguments) := by
  have verb : Text.IsLine "RCPT TO" := by decide
  exact Text.isLine_append.mpr ⟨verb, Command.isLine_path a⟩

theorem read?_mail (a : Address) {body : Option String} (hb : ∀ v ∈ body, Text.IsSolid v)
    (size : Option Nat) (rest : Bytes) : read? ((Command.mail a body size).encode ++ rest) =
      some (⟨Bytes.ofText "MAIL FROM:", a.text, body, size⟩, rest) := by
  have line : Bytes.ofText
      ((Command.mail a body size).verb ++ (Command.mail a body size).arguments) =
      Bytes.ofText ("MAIL FROM" ++ Command.path a) ++
        (parameter (Bytes.ofText "BODY") (body.map Bytes.ofText) ++
          parameter (Bytes.ofText "SIZE") (size.map fun n => Bytes.ofText (toString n))) := by
    have parameters := ofText_parameter "SIZE" (size.map toString)
    rw [Option.map_map] at parameters
    simp only [Command.verb, Command.arguments, Text.Utf8.ofText_append, ofText_parameter,
      List.append_assoc] at parameters ⊢
    rw [Option.map_map]
    rfl
  rw [read?_encode (isLine_mail a hb size), line, ofLine?_path a (by decide),
    foldlM_parameters _ _ hb]
  rfl

theorem read?_rcpt (a : Address) (rest : Bytes) : read? ((Command.rcpt a).encode ++ rest) =
    some (⟨Bytes.ofText "RCPT TO:", a.text, none, none⟩, rest) := by
  have line : Bytes.ofText ((Command.rcpt a).verb ++ (Command.rcpt a).arguments) =
      Bytes.ofText ("RCPT TO" ++ Command.path a) ++ [] := (List.append_nil _).symm
  rw [read?_encode (isLine_rcpt a), line, ofLine?_path a (by decide)]
  rfl

end Envelope

/-- A text is accepted as an address, just as it is, if it can be the mailbox in a path. -/
theorem exists_ofText_iff {s : String} :
    (∃ a, Address.ofText s = .ok a ∧ a.text = s) ↔ IsMailbox s := by
  rw [← problem?_eq_none_iff]
  constructor
  · rintro ⟨a, -, rfl⟩
    exact a.valid
  · intro h
    refine ⟨⟨s, h⟩, ?_, rfl⟩
    unfold Address.ofText
    split
    · rfl
    next hp => simp [h] at hp

/-- Nothing can be put into an envelope command through an address. The addresses that are accepted
are the mailboxes; with any of them a command is one line, from which a server takes the address and
the parameters as they are and nothing else, whatever comes next. The parameters may be a size and
any word for a body, such as those that a session gives. -/
theorem read?_envelope :
    (∀ s, (∃ a, Address.ofText s = .ok a ∧ a.text = s) ↔ IsMailbox s) ∧
    (∀ (a : Address) (body : Option String) (size : Option Nat) (rest : Bytes),
      (∀ v ∈ body, Text.IsSolid v) → Envelope.IsOneLine (.mail a body size) ∧
        Envelope.read? ((Command.mail a body size).encode ++ rest) =
          some (⟨Bytes.ofText "MAIL FROM:", a.text, body, size⟩, rest)) ∧
    (∀ (a : Address) (rest : Bytes), Envelope.IsOneLine (.rcpt a) ∧
      Envelope.read? ((Command.rcpt a).encode ++ rest) =
        some (⟨Bytes.ofText "RCPT TO:", a.text, none, none⟩, rest)) ∧
    ∀ (stage : Stage) (s : Session stage) (idle : stage.isIdle) (a : Address),
      ∃ body ∈ [none, some "8BITMIME"], (∀ v ∈ body, Text.IsSolid v) ∧
        s.mail a idle = s.command (.mail a body none) := by
  refine ⟨fun s => exists_ofText_iff, ?_, ?_, ?_⟩
  · intro a body size rest hb
    exact ⟨Envelope.isOneLine_of_isLine (Envelope.isLine_mail a hb size),
      Envelope.read?_mail a hb size rest⟩
  · intro a rest
    exact ⟨Envelope.isOneLine_of_isLine (Envelope.isLine_rcpt a), Envelope.read?_rcpt a rest⟩
  · intro stage s idle a
    unfold Session.mail
    dsimp only
    split
    · refine ⟨some "8BITMIME", by simp, ?_, rfl⟩
      rintro v ⟨⟩
      decide
    · exact ⟨none, by simp, nofun, rfl⟩

/-- An address with characters outside of ASCII, and another command behind it. -/
theorem read?_envelope_umlaut :
    (∀ v ∈ some "8BITMIME", Text.IsSolid v) ∧
    IsMailbox "jürgen@münchen.example" ∧
    ¬ IsMailbox "user@example.com>\r\nRCPT TO:<x@y" ∧
    ∃ a, Address.ofText "jürgen@münchen.example" = .ok a ∧
      Envelope.read?
          ((Command.mail a (some "8BITMIME") (some 1024)).encode ++ Command.data.encode) =
        some (⟨Bytes.ofText "MAIL FROM:", "jürgen@münchen.example", some "8BITMIME", some 1024⟩,
          Bytes.ofText "DATA\r\n") := by
  obtain ⟨accepted, mail, -, -⟩ := read?_envelope
  have solid : ∀ v ∈ some "8BITMIME", Text.IsSolid v := by
    rintro v ⟨⟩
    decide
  have valid : Address.problem? "jürgen@münchen.example" = none := by decide +kernel
  let a : Address := ⟨"jürgen@münchen.example", valid⟩
  have given : Address.ofText "jürgen@münchen.example" = .ok a := by rfl
  refine ⟨solid, (accepted _).mp ⟨a, given, rfl⟩, ?_, a, given, (mail a _ _ _ solid).2⟩
  intro h
  obtain ⟨b, hb, -⟩ := (accepted _).mpr h
  cases hb

end MailClient.Smtp
