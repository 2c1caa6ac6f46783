import MailClient.Duration
import MailClient.Wire.Source

/-! What reaches the client over time: data, pauses, failures, silence. `pull` reads from it with
an incremental reader, and stops without loss when the time is up before a first octet came. -/
namespace MailClient.Wire

inductive Arrival where
  | data (bytes : Bytes)
  /-- A pause that begins when a reader comes to it. -/
  | pause (span : Duration)
  /-- A pause under way, up to an instant. -/
  | due (instant : Duration)
  | failure (reason : String)
  | silence
  deriving DecidableEq, Repr

def Arrival.size : Arrival → Nat
  | .data bs => bs.length
  | _ => 0

def Arrival.totalSize : List Arrival → Nat
  | [] => 0
  | a :: rest => a.size + totalSize rest

/-- Cuts data into pieces of at most `size` octets. Where nothing can be read the stream ends. -/
def Arrival.cut (size : Nat) : List Arrival → List Arrival
  | [] => []
  | .data bs :: rest =>
    if size = 0 ∧ bs ≠ [] then [] else (pieces size bs).map .data ++ cut size rest
  | a :: rest => a :: cut size rest

inductive Progress (σ ε α : Type) where
  | more (state : σ)
  | done (item : α) (rest : Bytes)
  | broken (e : ε) (rest : Bytes)

/-- An incremental reader of one item, which takes at least one octet. -/
structure Framing (σ ε α : Type) where
  initial : σ
  consume : σ → Bytes → Progress σ ε α
  ended : σ → ε
  length_lt_of_done : ∀ {s bs a rest}, consume s bs = .done a rest → rest.length < bs.length

/-- What a read led to. Where the item was cut off, the state tells how far it came. -/
inductive Arrived (σ ε α : Type) where
  | item (a : α)
  | broken (e : ε)
  | failed (reason : String) (state : σ)
  | expired (state : σ)

structure Inbox where
  buffer : Bytes
  feed : List Arrival
  deriving DecidableEq, Repr

namespace Inbox

def ofFeed (feed : List Arrival) : Inbox := ⟨[], feed⟩

variable {σ ε α : Type}

/-- Reads on from an empty buffer at the instant `now`, up to `deadline`. What is there at the
deadline still counts. -/
def await (f : Framing σ ε α) (deadline : Duration) :
    (now : Duration) → σ → List Arrival → Arrived σ ε α × Inbox × Duration
  | now, s, [] => (.broken (f.ended s), ⟨[], []⟩, now)
  | now, s, .data bs :: rest =>
    if bs.isEmpty then await f deadline now s rest
    else match f.consume s bs with
      | .more s => await f deadline now s rest
      | .done a left => (.item a, ⟨left, rest⟩, now)
      | .broken e left => (.broken e, ⟨left, rest⟩, now)
  | now, s, .pause span :: rest =>
    if now + span ≤ deadline then await f deadline (now + span) s rest
    else (.expired s, ⟨[], .due (now + span) :: rest⟩, deadline)
  | now, s, .due instant :: rest =>
    if instant ≤ now then await f deadline now s rest
    else if instant ≤ deadline then await f deadline instant s rest
    else (.expired s, ⟨[], .due instant :: rest⟩, deadline)
  | now, s, .failure reason :: rest => (.failed reason s, ⟨[], rest⟩, now)
  | _, s, .silence :: rest => (.expired s, ⟨[], .silence :: rest⟩, deadline)

def pull (f : Framing σ ε α) (deadline now : Duration) (i : Inbox) :
    Arrived σ ε α × Inbox × Duration :=
  if i.buffer.isEmpty then await f deadline now f.initial i.feed
  else match f.consume f.initial i.buffer with
    | .more s => await f deadline now s i.feed
    | .done a left => (.item a, ⟨left, i.feed⟩, now)
    | .broken e left => (.broken e, ⟨left, i.feed⟩, now)

def unread (i : Inbox) : Nat := i.buffer.length + Arrival.totalSize i.feed

theorem unread_lt_of_await {f : Framing σ ε α} {deadline now now' : Duration} {s : σ}
    {feed : List Arrival} {a : α} {i : Inbox}
    (h : await f deadline now s feed = (.item a, i, now')) :
    i.unread < Arrival.totalSize feed := by
  fun_induction await f deadline now s feed
  case case4 now s bs rest _ left a' hdone =>
    have := f.length_lt_of_done hdone
    simp only [Prod.mk.injEq] at h
    obtain ⟨-, rfl, -⟩ := h
    simp [unread, Arrival.totalSize, Arrival.size]
    omega
  all_goals simp_all [unread, Arrival.totalSize, Arrival.size]
  all_goals omega

theorem unread_lt_of_pull {f : Framing σ ε α} {deadline now now' : Duration} {i i' : Inbox} {a : α}
    (h : i.pull f deadline now = (.item a, i', now')) : i'.unread < i.unread := by
  unfold pull at h
  split at h
  · have := unread_lt_of_await h
    simp only [unread] at this ⊢
    omega
  · split at h
    · have := unread_lt_of_await h
      simp only [unread] at this ⊢
      omega
    next hdone =>
      have := f.length_lt_of_done hdone
      simp only [Prod.mk.injEq] at h
      obtain ⟨-, rfl, -⟩ := h
      simp only [unread]
      omega
    · simp at h

theorem unread_le_of_await {f : Framing σ ε α} {deadline now now' : Duration} {s s' : σ}
    {feed : List Arrival} {i : Inbox}
    (h : await f deadline now s feed = (.expired s', i, now')) :
    i.unread ≤ Arrival.totalSize feed := by
  fun_induction await f deadline now s feed
  all_goals simp_all [unread, Arrival.totalSize, Arrival.size]
  all_goals first
    | omega
    | (obtain ⟨-, rfl, -⟩ := h; simp [Arrival.totalSize, Arrival.size])

theorem unread_le_of_pull {f : Framing σ ε α} {deadline now now' : Duration} {i i' : Inbox} {s : σ}
    (h : i.pull f deadline now = (.expired s, i', now')) : i'.unread ≤ i.unread := by
  unfold pull at h
  split at h
  · have := unread_le_of_await h
    simp only [unread] at this ⊢
    omega
  · split at h
    · have := unread_le_of_await h
      simp only [unread] at this ⊢
      omega
    · simp at h
    · simp at h

/-- Reads items until the first failure, for which no time is waited. -/
def readAll (f : Framing σ ε α) (i : Inbox) : List α × Arrived σ ε α :=
  match h : i.pull f 0 0 with
  | (.item a, i', _) =>
    have := unread_lt_of_pull h
    let (items, last) := readAll f i'
    (a :: items, last)
  | (last, _, _) => ([], last)
termination_by i.unread

end Inbox
end MailClient.Wire
