import MailClient.Proofs.Sasl.Coding
import MailClient.Proofs.Smtp.Replies
import MailClient.Smtp.Dialogue

/-! Authentication in replies of one line. The code of a reply tells a challenge from success and
from a refusal, and the client says each message in a line of its own. -/
namespace MailClient.Smtp

open Sasl (Scheme ServerStep Line)

/-! ### Replies of one line -/

namespace Reading

variable {r : Reading} {text : String} {reply : Reply}

theorem consume_octets {bs : Bytes} (h : ∀ b ∈ bs, b ≠ Bytes.lf) (room : bs.length < r.room)
    (rest : Bytes) : r.consume (bs ++ rest) =
      consume ⟨r.before, bs.reverse ++ r.line, r.room - bs.length⟩ rest := by
  induction bs generalizing r with
  | nil => rfl
  | cons b bs ih =>
    obtain ⟨hb, hbs⟩ := List.forall_mem_cons.mp h
    rw [List.length_cons] at room
    have step : r.step b = .more ⟨r.before, b :: r.line, r.room - 1⟩ := by
      unfold Reading.step
      exact if_pos (by simp [hb]; omega)
    rw [List.cons_append, consume, step]
    dsimp only
    rw [ih hbs (by dsimp only; omega)]
    simp only [List.reverse_cons, List.append_assoc, List.singleton_append, List.length_cons,
      Nat.sub_add_eq, Nat.sub_right_comm]

theorem withoutEnd_line (h : Text.IsLine text) : withoutEnd (text ++ "\r\n") = text := by
  have ended : (text ++ "\r\n").toList.reverse = '\n' :: '\r' :: text.toList.reverse := by simp
  have kept : text.toList.reverse.dropWhile (fun c => c = '\r' || c = '\n') =
      text.toList.reverse := by
    cases hc : text.toList.reverse with
    | nil => rfl
    | cons c cs =>
      have inner := h c (List.mem_reverse.mp (hc ▸ List.mem_cons_self ..))
      rw [List.dropWhile_cons, if_neg (by simp [inner])]
  unfold withoutEnd Text.dropEndWhile
  rw [ended, List.dropWhile_cons, if_pos (by decide), List.dropWhile_cons, if_pos (by decide), kept]
  simp

theorem consume_line (h : Text.IsLine text) (room : (Bytes.ofText text).length + 2 ≤ lineLimit)
    (single : Reply.isLastLine text = true) (ok : Reply.ofLines [text] = .ok reply)
    (rest : Bytes) : initial.consume (Bytes.line text ++ rest) = .done reply rest := by
  have nonempty : text.isEmpty = false := by
    rw [Bool.eq_false_iff]
    intro he
    rw [String.isEmpty_iff.mp he] at ok
    cases ok
  have cut : Bytes.line text ++ rest = (Bytes.ofText text ++ [Bytes.cr]) ++ Bytes.lf :: rest := by
    simp [Bytes.line, Bytes.crlf]
  have free : ∀ b ∈ Bytes.ofText text ++ [Bytes.cr], b ≠ Bytes.lf := by
    rw [List.forall_mem_append]
    exact ⟨fun b hb => (h.octets hb).2, List.forall_mem_singleton.mpr (by decide)⟩
  have ended : Bytes.ofText text ++ [Bytes.cr, Bytes.lf] = Bytes.ofText (text ++ "\r\n") := by
    rw [Text.Utf8.ofText_append]
    rfl
  have step (room : Nat) : Reading.step ⟨[], (Bytes.ofText text ++ [Bytes.cr]).reverse, room⟩
      Bytes.lf = .done reply := by
    unfold Reading.step addLine
    dsimp only
    rw [if_neg (by simp), List.reverse_cons, List.reverse_reverse, List.append_assoc,
      List.singleton_append, ended, Text.Utf8.decode_ofText]
    dsimp only
    rw [if_pos rfl, withoutEnd_line h, nonempty, single, if_neg (by simp), if_pos rfl,
      List.reverse_singleton, ok]
  have short : (Bytes.ofText text ++ [Bytes.cr]).length < initial.room := by
    rw [List.length_append, List.length_singleton]
    exact room
  rw [cut, consume_octets free short, show initial.line = [] from rfl, List.append_nil, consume,
    show initial.before = [] from rfl, step]

end Reading

namespace Reply

/-- A code and a space in front of a text make it a reply. -/
theorem ofLines_coded {a b c : Char} {code : Nat}
    (h : Text.natOfDigits? 1000 [a, b, c] = some code) (text : String) :
    ofLines [String.ofList [a, b, c, ' '] ++ text] = .ok ⟨code, [text]⟩ := by
  have line : (String.ofList [a, b, c, ' '] ++ text).toList =
      a :: b :: c :: ' ' :: text.toList := by simp
  have split : splitCode (String.ofList [a, b, c, ' '] ++ text) =
      .ok (code, ' ' :: text.toList) := by
    unfold splitCode
    rw [line]
    dsimp only
    rw [h]
  have whole : textOfLine code (String.ofList [a, b, c, ' '] ++ text) = .ok text := by
    unfold textOfLine
    rw [split]
    dsimp only
    rw [if_neg (by simp), if_pos (by simp), String.ofList_toList]
  unfold ofLines
  simp only [split, List.mapM_cons, List.mapM_nil, whole]
  rfl

theorem isLastLine_append {code : String} (h : (Bytes.ofText code)[3]? = some (octet ' '))
    (text : String) : isLastLine (code ++ text) = true := by
  have third : (Bytes.ofText (code ++ text))[3]? = some (octet ' ') := by
    obtain ⟨long, -⟩ := List.getElem?_eq_some_iff.mp h
    rw [Text.Utf8.ofText_append, List.getElem?_append_left long, h]
  unfold isLastLine
  rw [third]
  decide

end Reply

/-! ### Dialogues -/

namespace Dialogue

def wording (praise : String) : ServerStep → String
  | .challenge data => "334 " ++ data
  | .success => "235 " ++ praise
  | .rejected why => "535 " ++ why

def coding (praise : String) : Sasl.Coding Unit where
  next := id
  begins _ scheme initial := ["AUTH " ++ (scheme.name ++ Sasl.argument initial)]
  prompt _ := []
  answer _ step := Bytes.line (wording praise step)

def view (τ : Type) : Sasl.View (Dialogue τ) Unit τ where
  stream := Dialogue.stream
  tokens := Dialogue.tokens
  fits _ isOpen d := d.underWay = isOpen

def replyTo (praise : String) : ServerStep → Reply
  | .challenge data => ⟨334, [data]⟩
  | .success => ⟨235, [praise]⟩
  | .rejected why => ⟨535, [why]⟩

variable {praise : String} {step : ServerStep}

theorem isLine_coded {code text : String} (hc : Text.IsLine code) (ht : Text.IsLine text) :
    Text.IsLine (code ++ text) := Text.isLine_append.mpr ⟨hc, ht⟩

theorem room_coded {code text : String} (hc : (Bytes.ofText code).length = 4)
    (ht : (Bytes.ofText text).length ≤ Sasl.textLimit) :
    (Bytes.ofText (code ++ text)).length + 2 ≤ Reading.lineLimit := by
  rw [Text.Utf8.ofText_append, List.length_append, hc]
  unfold Sasl.textLimit at ht
  unfold Reading.lineLimit
  omega

theorem consume_wording (hp : Sasl.IsPlain praise) (hs : step.IsPlain) (rest : Bytes) :
    Reading.initial.consume (Bytes.line (wording praise step) ++ rest) =
      .done (replyTo praise step) rest := by
  cases step with
  | challenge data =>
    exact Reading.consume_line (isLine_coded (by decide) hs.1.isSolid.isLine)
      (room_coded (by rfl) hs.length_ofText) (Reply.isLastLine_append rfl data)
      (Reply.ofLines_coded rfl data) rest
  | success =>
    exact Reading.consume_line (isLine_coded (by decide) hp.isLine) (room_coded (by rfl) hp.fits)
      (Reply.isLastLine_append rfl praise) (Reply.ofLines_coded rfl praise) rest
  | rejected why =>
    exact Reading.consume_line (isLine_coded (by decide) hs.isLine) (room_coded (by rfl) hs.fits)
      (Reply.isLastLine_append rfl why) (Reply.ofLines_coded rfl why) rest

theorem judge_replyTo (hs : step.IsPlain) :
    judge (replyTo praise step) = .ok (step.worded "535 ") := by
  cases step with
  | challenge data =>
    have trimmed : Text.trim data = data := Text.trim_solid hs.1.isSolid
    simp [judge, replyTo, challengeCode, Reply.firstLine, trimmed, ServerStep.worded]
  | success =>
    simp [judge, replyTo, challengeCode, Reply.isSuccess, ReplyClass.ofCode, ServerStep.worded]
  | rejected why =>
    have code : Nat.repr 535 ++ " " = "535 " := by decide
    simp [judge, replyTo, challengeCode, Error.closingDown, Reply.isSuccess, Reply.text,
      ReplyClass.ofCode, ServerStep.worded, code]

theorem isChallenge_replyTo : ((replyTo praise step).code == challengeCode) = step.isChallenge := by
  cases step <;> rfl

variable {τ : Type} {total heard said : Bytes} {isOpen : Bool} {t : τ} {d : Dialogue τ}

theorem write_at {bytes : Bytes}
    (h : (view τ).At total heard (bytes ++ said) () isOpen t d) :
    ∃ d', lift (write bytes d.limit) d = (.ok (), d') ∧
      (view τ).At total heard said () isOpen t d' := by
  obtain ⟨stream, written, stands⟩ := h.stands.write d.limit
  refine ⟨{ d with stream := stream }, ?_, stands, h.fits, h.tokens⟩
  unfold lift write
  rw [show d.stream.write bytes d.limit = _ from written]

/-- A reply is read for the step that it tells. -/
theorem readStep_at (hp : Sasl.IsPlain praise) (hs : step.IsPlain)
    (h : (view τ).At total (Bytes.line (wording praise step) ++ heard) said () true t d) :
    ∃ d', readStep d = (.ok (step.worded "535 "), d') ∧
      (view τ).At total heard said () step.isChallenge t d' := by
  obtain ⟨stream, read, stands⟩ :=
    h.stands.read Reading.seamless (consume_wording hp hs heard) d.limit
  have heard : lift (readReply d.limit) d =
      (.ok (replyTo praise step), { d with stream := stream }) := by
    unfold lift readReply
    rw [show d.stream.read Reading.framing d.limit = _ from read]
  have underWay : d.underWay = true := h.fits
  refine ⟨{ d with stream := stream, underWay := step.isChallenge }, ?_, stands, rfl, h.tokens⟩
  unfold readStep
  rw [heard]
  dsimp only [settle]
  rw [judge_replyTo hs, isChallenge_replyTo, underWay, Bool.true_and]

theorem line_auth (scheme : Scheme) (initial : Option String) :
    (Command.auth scheme initial).verb ++ (Command.auth scheme initial).arguments =
      "AUTH " ++ (scheme.name ++ Sasl.argument initial) := by
  have argument : Command.initialArgument initial = Sasl.argument initial := by
    cases initial <;> rfl
  exact String.toList_inj.mp (by simp [Command.verb, Command.arguments, argument])

theorem encode_auth (scheme : Scheme) (initial : Option String) :
    (Command.auth scheme initial).encode =
      Bytes.line ("AUTH " ++ (scheme.name ++ Sasl.argument initial)) := by
  rw [Command.encode, line_auth]

theorem start_at {scheme : Scheme} {initial : Option String} (hp : Sasl.IsPlain praise)
    (hs : step.IsPlain)
    (h : (view τ).At total (Bytes.line (wording praise step) ++ heard)
      ((Command.auth scheme initial).encode ++ said) () false t d) :
    ∃ d', start scheme initial d = (.ok (step.worded "535 "), d') ∧
      (view τ).At total heard said () step.isChallenge t d' := by
  obtain ⟨d₁, written, at₁⟩ := write_at h
  obtain ⟨d', read, at'⟩ := readStep_at (d := { d₁ with underWay := true }) hp hs
    ⟨at₁.stands, rfl, at₁.tokens⟩
  refine ⟨d', ?_, at'⟩
  unfold start
  rw [written]
  exact read

theorem respond_at {data : String} (hp : Sasl.IsPlain praise) (hs : step.IsPlain)
    (h : (view τ).At total (Bytes.line (wording praise step) ++ heard) (Bytes.line data ++ said) ()
      true t d) : ∃ d', respond data d = (.ok (step.worded "535 "), d') ∧
      (view τ).At total heard said () step.isChallenge t d' := by
  obtain ⟨d₁, written, at₁⟩ := write_at h
  obtain ⟨d', read, at'⟩ := readStep_at hp hs at₁
  refine ⟨d', ?_, at'⟩
  unfold respond
  rw [written]
  exact read

theorem cancel_at {remark : String} (hp : Sasl.IsPlain praise) (hr : Sasl.IsPlain remark)
    (h : (view τ).At total (Bytes.line (wording praise (.rejected remark)) ++ heard)
      (Bytes.line "*" ++ said) () true t d) :
    ∃ d', cancel d = (.ok (), d') ∧ (view τ).At total heard said () false t d' := by
  have plain : (ServerStep.rejected remark).IsPlain := hr
  obtain ⟨d', answered, at'⟩ := respond_at hp plain h
  refine ⟨d', ?_, at'⟩
  have underWay : d.underWay = true := h.fits
  unfold cancel
  rw [underWay, Bool.not_true, if_neg (by simp), answered]
  rfl

theorem transport_start : (transport (τ := τ)).start = start := by rw [transport]

theorem transport_respond : (transport (τ := τ)).respond = respond := by rw [transport]

theorem transport_cancel : (transport (τ := τ)).cancel = cancel := by rw [transport]

theorem realizes (hp : Sasl.IsPlain praise) (service : Sasl.TokenService τ) :
    (coding praise).Realizes (view τ) transport (tokenProvider service) service "535 " where
  start {scheme initial step total heard said k t d} hs h := by
    have whole : ((coding praise).begins k scheme initial).flatMap Bytes.line =
        (Command.auth scheme initial).encode := by
      rw [encode_auth]
      exact List.append_nil _
    rw [show (coding praise).next k = k from rfl, whole] at h
    rw [transport_start]
    exact start_at hp hs h
  respond hs h := by
    rw [transport_respond]
    exact respond_at hp hs h
  cancel hr h := by
    rw [transport_cancel]
    exact cancel_at hp hr h
  get identity limit h := by
    obtain ⟨stands, fits, rfl⟩ := h
    exact ⟨_, rfl, stands.wait _, fits, rfl⟩
  invalidate identity h := by
    obtain ⟨stands, fits, rfl⟩ := h
    exact ⟨stands, fits, rfl⟩

/-! ### Lines -/

def lineOf (line : String) : Line := .read "AUTH" line (Text.words line)

theorem legible : (coding praise).Legible true lineOf where
  isLine h line hl := by
    obtain rfl := List.mem_singleton.mp hl
    exact Text.isLine_append.mpr ⟨by decide, Sasl.isLine_argument h⟩
  begins {_ scheme initial} rest _ h := by
    have words : Text.words ("AUTH " ++ (scheme.name ++ Sasl.argument initial)) =
        "AUTH" :: Text.words (scheme.name ++ Sasl.argument initial) :=
      Text.words_spaced (w := "AUTH") (by decide) (by decide) _
    unfold coding
    dsimp only
    rw [List.map_singleton, List.singleton_append, lineOf, words, Line.read_names h]
    rfl
  solid {text} h := by
    unfold lineOf
    rw [Text.words_solid h]
    split <;> rfl

end Dialogue
end MailClient.Smtp
