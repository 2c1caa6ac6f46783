import MailClient.Imap.Malformed
import MailClient.Imap.Octet
import MailClient.Imap.Response
import MailClient.Wire.Inbox

/-! Responses read one octet at a time. `Mode` is what the octets so far have led to, with the
open groups on a stack, and `step` is the effect of the next octet. The parser never looks past
the line end of a response, and how the octets are cut into buffers matters only to the point at
which a line is found too long: a run of word octets is measured where it ends or its buffer
does. -/
namespace MailClient.Imap.Parse

structure Limits where
  /-- Octets allowed between line ends and literals. -/
  line : Nat
  /-- Literals above this size are spilled. -/
  spill : Nat
  deriving DecidableEq, Repr

def defaultLimits : Limits := ⟨1048576, 1048576⟩

inductive Head where
  | completion (tag : Tag) (status : Status)
  | notice (keyword : String)

def Head.response : Head → Option (List Token) → String → Response
  | .completion tag status, code, text => .tagged tag status code text
  | .notice keyword, code, text => .untagged ⟨[.atom keyword], code, some text⟩

/-- What the tokens being read are for: untagged data, or the code of a status response. -/
inductive Place where
  | data
  | code (head : Head)

/-- An open group: its closing octet, and the items before it in reverse. -/
structure Group where
  closer : UInt8
  before : List Token

/-- Tokens being read, in reverse, inside the open groups. -/
structure Nest where
  place : Place
  groups : List Group
  items : List Token

def Nest.push (n : Nest) (t : Token) : Nest := { n with items := t :: n.items }

inductive Goal where
  | continuation
  | status (head : Head) (code : Option (List Token))

def Goal.response : Goal → String → Response
  | .continuation, text => .continuation text
  | .status head code, text => head.response code text

/-- What has been read of the response. Octets of an unfinished word are kept in reverse. -/
inductive Mode where
  | start
  | plus
  | star
  | tag (word : Bytes)
  | verdict (tag : Tag) (word : Bytes)
  | untagged
  | keyword (word : Bytes)
  | gap (head : Head)
  | code (head : Head)
  | codeGap (head : Head) (code : List Token)
  | text (goal : Goal) (word : Bytes)
  | textEnd (goal : Goal) (word : Bytes)
  | tokens (nest : Nest)
  | tokensEnd (nest : Nest)
  | atom (nest : Nest) (word : Bytes)
  | quoted (nest : Nest) (word : Bytes)
  | escape (nest : Nest) (word : Bytes)
  | size (nest : Nest) (digits : Bytes)
  | brace (nest : Nest) (digits : Bytes)
  | sizeEnd (nest : Nest) (size : Nat)
  | sizeLf (nest : Nest) (size : Nat)
  | payload (nest : Nest) (size missing : Nat) (stored : Bytes)

inductive Move where
  /-- The octet goes on with a run; the length of the line is not looked at yet. -/
  | run (mode : Mode)
  /-- The octet begins a run, perhaps right after another run. -/
  | begin (mode : Mode)
  | take (mode : Mode)
  /-- The octet ends a line within the response. -/
  | newLine (mode : Mode)
  /-- The octet ends the response. -/
  | finish (response : Response)
  /-- The octet belongs to a literal, in which there are no lines. -/
  | store (mode : Mode)
  /-- The octet is the last of a literal. -/
  | stored (size : Nat) (mode : Mode)
  /-- The octet cannot follow. -/
  | refuse (why : Malformed)
  /-- The octet has been taken before the response turned out malformed. -/
  | reject (why : Malformed)

def Move.endsRun : Move → Bool
  | .run _ => false
  | _ => true

def Move.isMeasured : Move → Bool
  | .take _ | .newLine _ | .finish _ | .reject _ => true
  | .run _ | .begin _ | .store _ | .stored .. | .refuse _ => false

def wordText (word : Bytes) : String := Text.Utf8.text word.reverse

def expect (wanted b : UInt8) (next : Mode) : Move :=
  if b = wanted then .take next else .reject (.expected wanted b)

def lineEnd (b : UInt8) (next : Mode) : Move :=
  if b = Bytes.cr then .take next
  else if b = Bytes.lf then .reject .bareLf
  else .reject .expectedLineEnd

def lineFeed (b : UInt8) (next : Move) : Move := if b = Bytes.lf then next else .reject .bareCr

def textStep (goal : Goal) (word : Bytes) (b : UInt8) : Move :=
  if !Octet.isText b then lineEnd b (.textEnd goal word)
  else if word.isEmpty then .begin (.text goal [b])
  else .run (.text goal (b :: word))

def codeStep (head : Head) (b : UInt8) : Move :=
  if b = octet '[' then .take (.tokens ⟨.code head, [], []⟩)
  else textStep (.status head none) [] b

def gapStep (head : Head) (b : UInt8) : Move :=
  if b = octet ' ' then .take (.code head) else codeStep head b

def codeGapStep (head : Head) (code : List Token) (b : UInt8) : Move :=
  let goal := Goal.status head (some code)
  if b = octet ' ' then .take (.text goal []) else textStep goal [] b

/-- A closing octet ends the innermost group, or the response code around all groups. -/
def closeStep (n : Nest) (b : UInt8) : Move :=
  match n.groups, n.place with
  | g :: outer, place =>
    if g.closer = b then .take (.tokens ⟨place, outer, .list n.items.reverse :: g.before⟩)
    else .reject .wrongCloser
  | [], .code head =>
    if b = octet ']' then .take (.codeGap head n.items.reverse) else .reject .looseCloser
  | [], .data => .reject .looseCloser

def openStep (n : Nest) (closer : UInt8) : Move :=
  .take (.tokens ⟨n.place, ⟨closer, n.items⟩ :: n.groups, []⟩)

/-- The end of a line ends the tokens of untagged data only. -/
def tokensEndStep (n : Nest) (b : UInt8) : Move :=
  match n.groups, n.place with
  | _ :: _, _ => .refuse .openGroup
  | [], .code _ => .refuse .openCode
  | [], .data => lineEnd b (.tokensEnd n)

def tokensStep (n : Nest) (b : UInt8) : Move :=
  if b = octet ' ' then .take (.tokens n)
  else if b = Bytes.cr || b = Bytes.lf then tokensEndStep n b
  else if b = octet '(' then openStep n (octet ')')
  else if b = octet '[' then openStep n (octet ']')
  else if b = octet ')' || b = octet ']' then closeStep n b
  else if b = octet '"' then .take (.quoted n [])
  else if b = octet '\x7b' then .take (.size n [])
  else if Octet.isAtom b then .begin (.atom n [b])
  else .refuse (.unexpectedByte b)

/-- A word of the wrong kind or none stands where the status of a completion belongs. -/
def verdictOf (tag : Tag) (word : Bytes) : Except Malformed Head :=
  if word.isEmpty then .error .expectedAtom
  else match Status.ofKeyword? (wordText word) with
    | some status => .ok (.completion tag status)
    | none => .error (.unknownStatus (wordText word))

/-- The first word of an untagged response makes it a notice if the word is a status. -/
def noticeOf? (word : Bytes) : Option Head :=
  let text := wordText word
  if (Status.ofKeyword? text).isSome then some (.notice text) else none

def quotedStep (n : Nest) (word : Bytes) (b : UInt8) : Move :=
  if b = octet '"' then
    match Text.Utf8.text? word.reverse with
    | some text => .take (.tokens (n.push (.quoted text)))
    | none => .reject .quotedNotText
  else if b = octet '\\' then .take (.escape n word)
  else if b = Bytes.cr || b = Bytes.lf then .reject .lineBreakInQuoted
  else .take (.quoted n (b :: word))

def escapeStep (n : Nest) (word : Bytes) (b : UInt8) : Move :=
  if b = octet '"' || b = octet '\\' then .take (.quoted n (b :: word)) else .reject (.escape b)

def sizeOf? (digits : Bytes) : Option Nat :=
  Text.natOfDigits? (Nat.pow 2 64) (digits.reverse.map latin1)

def braceStep (n : Nest) (digits : Bytes) (b : UInt8) : Move :=
  if b = octet '\x7d' then
    match sizeOf? digits with
    | some size => .take (.sizeEnd n size)
    | none => .reject .literalSize
  else .reject (.expected (octet '\x7d') b)

def sizeStep (n : Nest) (digits : Bytes) (b : UInt8) : Move :=
  if Octet.isDigit b then .run (.size n (b :: digits))
  else if b = octet '+' then .take (.brace n digits)
  else braceStep n digits b

def literalMode (l : Limits) (n : Nest) (stored : Bytes) : Mode :=
  .tokens (n.push (.literal (.store l.spill stored.reverse)))

def payloadStep (l : Limits) (n : Nest) (size missing : Nat) (stored : Bytes) (b : UInt8) : Move :=
  if missing ≤ 1 then .stored size (literalMode l n (b :: stored))
  else .store (.payload n size (missing - 1) (b :: stored))

def tagStep (word : Bytes) (b : UInt8) : Move :=
  if Octet.isTag b then .run (.tag (b :: word))
  else if word.isEmpty then .refuse .missingTag
  else expect (octet ' ') b (.verdict ⟨wordText word⟩ [])

def step (l : Limits) : Mode → UInt8 → Move
  | .start, b =>
    if b = octet '+' then .take .plus
    else if b = octet '*' then .take .star
    else tagStep [] b
  | .plus, b =>
    if b = octet ' ' then .take (.text .continuation []) else textStep .continuation [] b
  | .star, b => expect (octet ' ') b .untagged
  | .tag word, b => tagStep word b
  | .verdict tag word, b =>
    if Octet.isAtom b then .run (.verdict tag (b :: word))
    else match verdictOf tag word with
      | .ok head => gapStep head b
      | .error why => .refuse why
  | .untagged, b =>
    if Octet.isAtom b then .begin (.keyword [b]) else tokensStep ⟨.data, [], []⟩ b
  | .keyword word, b =>
    if Octet.isAtom b then .run (.keyword (b :: word))
    else match noticeOf? word with
      | some head => gapStep head b
      | none => tokensStep ⟨.data, [], [.atom (wordText word)]⟩ b
  | .gap head, b => gapStep head b
  | .code head, b => codeStep head b
  | .codeGap head code, b => codeGapStep head code b
  | .text goal word, b => textStep goal word b
  | .textEnd goal word, b => lineFeed b (.finish (goal.response (wordText word)))
  | .tokens n, b => tokensStep n b
  | .tokensEnd n, b => lineFeed b (.finish (.untagged ⟨n.items.reverse, none, none⟩))
  | .atom n word, b =>
    if Octet.isAtom b then .run (.atom n (b :: word))
    else tokensStep (n.push (.atom (wordText word))) b
  | .quoted n word, b => quotedStep n word b
  | .escape n word, b => escapeStep n word b
  | .size n digits, b => sizeStep n digits b
  | .brace n digits, b => braceStep n digits b
  | .sizeEnd n size, b => lineEnd b (.sizeLf n size)
  | .sizeLf n size, b =>
    lineFeed b (.newLine (if size = 0 then literalMode l n [] else .payload n size size []))
  | .payload n size missing stored, b => payloadStep l n size missing stored b

def ended : Mode → Malformed
  | .untagged | .tokens _ | .atom .. => .endInLine
  | .keyword word => if (noticeOf? word).isSome then .endInResponse else .endInLine
  | .verdict tag word =>
    match verdictOf tag word with
    | .ok _ => .endInResponse
    | .error why => why
  | .payload _ size _ _ => .endInLiteral size
  | _ => .endInResponse

structure State where
  mode : Mode
  /-- Octets taken since the start of the response. -/
  position : Nat
  /-- Octets taken since the last line end or literal. -/
  line : Nat

def initial : State := ⟨.start, 0, 0⟩

/-- Why there is no response: the stream was closed before one began, or it is malformed at a
position. -/
inductive Failure where
  | closed
  | malformed (position : Nat) (why : Malformed)
  deriving DecidableEq, Repr

def State.advance (s : State) (mode : Mode) : State := ⟨mode, s.position + 1, s.line + 1⟩

def State.tooLong (l : Limits) (s : State) : Bool := l.line < s.line

def State.failure (s : State) (why : Malformed) : Failure := .malformed s.position why

def consume (l : Limits) : State → Bytes → Wire.Progress State Failure Response
  | s, [] => if s.tooLong l then .broken (s.failure (.lineTooLong l.line)) [] else .more s
  | s, b :: bs =>
    let move := step l s.mode b
    let next := s.advance s.mode
    if move.endsRun && s.tooLong l then .broken (s.failure (.lineTooLong l.line)) (b :: bs)
    else if move.isMeasured && next.tooLong l then .broken (next.failure (.lineTooLong l.line)) bs
    else match move with
      | .run mode => consume l (s.advance mode) bs
      | .begin mode => consume l (s.advance mode) bs
      | .take mode => consume l (s.advance mode) bs
      | .newLine mode => consume l ⟨mode, s.position + 1, 0⟩ bs
      | .finish response => .done response bs
      | .store mode => consume l { s with mode := mode } bs
      | .stored size mode => consume l ⟨mode, s.position + size, 0⟩ bs
      | .refuse why => .broken (s.failure why) (b :: bs)
      | .reject why => .broken (next.failure why) bs

def State.isPartial (s : State) : Bool :=
  match s.mode with
  | .start => false
  | _ => true

def atEnd (s : State) : Failure := if s.isPartial then s.failure (ended s.mode) else .closed

theorem length_lt_of_consume {l : Limits} {s : State} {bs rest : Bytes} {r : Response}
    (h : consume l s bs = .done r rest) : rest.length < bs.length := by
  fun_induction consume l s bs <;> simp_all <;> omega

def framing (l : Limits) : Wire.Framing State Failure Response :=
  ⟨initial, consume l, atEnd, length_lt_of_consume⟩

end MailClient.Imap.Parse
