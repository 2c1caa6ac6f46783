import MailClient.Proofs.Wire.Upgrading

/-! Reads under a limit of time. If the time is up before a first octet came, the read leaves no
trace. Otherwise it finds what it would have found if nothing had ever been waited for. -/
namespace MailClient.Wire

variable {σ ε α : Type}

def Outlet.IsOpen (o : Outlet) : Prop := o.room = none ∧ o.burst ≠ some 0

theorem Outlet.accept_of_isOpen {o : Outlet} (h : o.IsOpen) (length : Nat) :
    o.accept length = (length, none, o) := by
  obtain ⟨burst, room, refusal⟩ := o
  obtain ⟨hr, hb⟩ := h
  dsimp only at hr hb
  subst hr
  unfold accept
  by_cases hl : length = 0
  · rw [if_pos hl, hl]
  · rw [if_neg hl, if_neg (by simp), if_neg hb, if_pos rfl]
    rfl

/-! ### All that there is to read -/

theorem Framing.Reads.eq_of_nil {f : Framing σ ε α} {bs rest : Bytes} (h : f.Reads bs [] rest) :
    rest = bs := by
  cases h
  rfl

/-- Items that stand at the front of the octets are found when all octets are there at once. -/
theorem Framing.Reads.prefix_readAll {f : Framing σ ε α} (hf : f.Seamless) {bs rest : Bytes}
    {items : List α} (h : f.Reads bs items rest) :
    items <+: (Inbox.readAll f (.ofFeed [.data bs])).1 := by
  have found (buffer : Bytes) (pieces : List Bytes) (hb : buffer ++ pieces.flatten = bs) :
      items <+: (Inbox.readAll f (.ofPieces buffer pieces)).1 := by
    induction h generalizing buffer pieces with
    | nil => exact List.nil_prefix
    | @cons bs a rest items last taken _ ih =>
      rw [← hb] at taken
      obtain ⟨left, later, item, hl⟩ : ∃ left later, (Inbox.ofPieces buffer pieces).pull f 0 0 =
          (.item a, Inbox.ofPieces left later, 0) ∧ left ++ later.flatten = rest :=
        Inbox.pull_of_consume hf taken
      rw [Inbox.readAll]
      split
      next a i _ hp =>
        rw [item] at hp
        cases hp
        exact List.cons_prefix_cons.mpr ⟨rfl, ih left later hl⟩
      next other hp =>
        rw [item] at hp
        cases hp
        exact (other _ rfl).elim
  exact found [] [bs] (List.append_nil bs)

/-! ### Time -/

def Arrival.counts : Arrival → Bool
  | .data bs => !bs.isEmpty
  | .pause _ | .due _ => false
  | .failure _ | .silence => true

def Arrival.wait : Arrival → Duration
  | .pause span => span
  | .due instant => instant
  | _ => 0

def Arrival.waits : List Arrival → Duration
  | [] => 0
  | a :: feed => a.wait + waits feed

theorem Arrival.waits_data (bs : Bytes) (feed : List Arrival) :
    waits (.data bs :: feed) = waits feed := Nat.zero_add _

theorem Arrival.waits_pause (span : Duration) (feed : List Arrival) :
    waits (.pause span :: feed) = span + waits feed := rfl

theorem Arrival.waits_due (instant : Duration) (feed : List Arrival) :
    waits (.due instant :: feed) = instant + waits feed := rfl

namespace Inbox

variable {f : Framing σ ε α} {deadline deadline' now now' later : Duration} {s s' : σ}
  {i i' : Inbox} {feed : List Arrival}

def timeless (i : Inbox) : Inbox := ⟨i.buffer, i.feed.filter Arrival.counts⟩

def expired : Arrived σ ε α → Bool
  | .expired _ => true
  | _ => false

theorem await_timeless (h : expired (await f deadline now s feed).1 = false)
    (deadline' now' : Duration) :
    await f deadline' now' s (feed.filter Arrival.counts) =
      ((await f deadline now s feed).1, (await f deadline now s feed).2.1.timeless, now') := by
  fun_induction await f deadline now s feed with
  | case1 => rfl
  | case2 now s bs rest hb ih => simpa [Arrival.counts, hb] using ih h
  | case3 now s bs rest hb s' hc ih => simpa [Arrival.counts, hb, await, hc] using ih h
  | case4 now s bs rest hb a left hc => simp [Arrival.counts, hb, await, hc, timeless]
  | case5 now s bs rest hb e left hc => simp [Arrival.counts, hb, await, hc, timeless]
  | case6 now s span rest hd ih => simpa [Arrival.counts] using ih h
  | case7 => cases h
  | case8 now s instant rest hd ih => simpa [Arrival.counts] using ih h
  | case9 now s instant rest hd hd' ih => simpa [Arrival.counts] using ih h
  | case10 => cases h
  | case11 => rfl
  | case12 => cases h

theorem pull_timeless (h : expired (i.pull f deadline now).1 = false)
    (deadline' now' : Duration) :
    i.timeless.pull f deadline' now' =
      ((i.pull f deadline now).1, (i.pull f deadline now).2.1.timeless, now') := by
  obtain ⟨buffer, feed⟩ := i
  rw [timeless]
  unfold pull at h ⊢
  dsimp only at h ⊢
  by_cases hb : buffer.isEmpty
  · rw [if_pos hb] at h
    rw [if_pos hb, if_pos hb]
    exact await_timeless h deadline' now'
  · rw [if_neg hb] at h
    rw [if_neg hb, if_neg hb]
    cases hc : f.consume f.initial buffer with
    | more s =>
      rw [hc] at h
      exact await_timeless h deadline' now'
    | done a left => rfl
    | broken e left => rfl

/-- The time is up: nothing has been taken, or octets that do not make up an item. -/
theorem expired_of_await (hf : f.Seamless)
    (h : await f deadline now s feed = (.expired s', i, later)) :
    ∃ taken, feed.flatMap Arrival.octets = taken ++ i.content ∧
      (taken = [] ∧ s' = s ∧ i.buffer = [] ∧
          i.feed.filter Arrival.counts = feed.filter Arrival.counts ∨
        taken ≠ [] ∧ f.consume s taken = .more s') := by
  fun_induction await f deadline now s feed with
  | case1 => simp at h
  | case2 now s bs rest hb ih =>
    obtain rfl := List.isEmpty_iff.mp hb
    exact ih h
  | case3 now s bs rest hb s₁ hc ih =>
    obtain ⟨taken, content, hs⟩ := ih h
    have bytes : bs ≠ [] := fun he => hb (List.isEmpty_iff.mpr he)
    refine ⟨bs ++ taken, ?_, .inr ⟨by simp [bytes], ?_⟩⟩
    · rw [List.flatMap_cons, content, List.append_assoc, Arrival.octets]
    · rw [hf.more taken hc]
      rcases hs with ⟨rfl, rfl, -, -⟩ | ⟨-, hc'⟩
      · have whole := hf.more [] hc
        rwa [List.append_nil, hc, eq_comm] at whole
      · exact hc'
  | case4 => simp at h
  | case5 => simp at h
  | case6 _ _ _ _ _ ih => exact ih h
  | case7 =>
    cases h
    exact ⟨[], rfl, .inl ⟨rfl, rfl, rfl, rfl⟩⟩
  | case8 _ _ _ _ _ ih => exact ih h
  | case9 _ _ _ _ _ _ ih => exact ih h
  | case10 =>
    cases h
    exact ⟨[], rfl, .inl ⟨rfl, rfl, rfl, rfl⟩⟩
  | case11 => simp at h
  | case12 =>
    cases h
    exact ⟨[], rfl, .inl ⟨rfl, rfl, rfl, rfl⟩⟩

/-- A read that takes no octet can be repeated as if it had not been tried. -/
theorem expired_of_pull (hf : f.Seamless) (h : i.pull f deadline now = (.expired s, i', later)) :
    ∃ taken, i.content = taken ++ i'.content ∧
      (taken = [] ∧ s = f.initial ∧ i'.timeless = i.timeless ∨
        taken ≠ [] ∧ f.consume f.initial taken = .more s) := by
  unfold pull at h
  split at h
  next hb =>
    obtain ⟨taken, content, hs⟩ := expired_of_await hf h
    have empty := List.isEmpty_iff.mp hb
    refine ⟨taken, by rw [Inbox.content, empty, List.nil_append, content], ?_⟩
    rcases hs with ⟨rfl, rfl, hi, counts⟩ | hc
    · exact .inl ⟨rfl, rfl, by rw [timeless, timeless, hi, empty, counts]⟩
    · exact .inr hc
  next hb =>
    have bytes : i.buffer ≠ [] := fun he => hb (List.isEmpty_iff.mpr he)
    split at h
    next s₁ hc =>
      obtain ⟨taken, content, hs⟩ := expired_of_await hf h
      refine ⟨i.buffer ++ taken, ?_, .inr ⟨by simp [bytes], ?_⟩⟩
      · rw [Inbox.content, content, List.append_assoc]
      · rw [hf.more taken hc]
        rcases hs with ⟨rfl, rfl, -, -⟩ | ⟨-, hc'⟩
        · have whole := hf.more [] hc
          rwa [List.append_nil, hc, eq_comm] at whole
        · exact hc'
    · simp at h
    · simp at h

/-! ### Long enough limits -/

/-- Within a limit that allows for all waits a read comes to its end, unless it could never come to
one. There remains time enough for the waits that are left. -/
theorem await_patient (hw : now + Arrival.waits feed ≤ deadline)
    (h : expired (await f deadline' now' s (feed.filter Arrival.counts)).1 = false) :
    expired (await f deadline now s feed).1 = false ∧
      Arrival.waits (await f deadline now s feed).2.1.feed ≤ Arrival.waits feed := by
  fun_induction await f deadline now s feed with
  | case1 => exact ⟨rfl, Nat.le_refl _⟩
  | case2 now s bs rest hb ih =>
    rw [Arrival.waits_data] at hw ⊢
    exact ih hw (by simpa [Arrival.counts, hb] using h)
  | case3 now s bs rest hb s₁ hc ih =>
    rw [Arrival.waits_data] at hw ⊢
    exact ih hw (by simpa [Arrival.counts, hb, await, hc] using h)
  | case4 => exact ⟨rfl, Nat.le_add_left _ _⟩
  | case5 => exact ⟨rfl, Nat.le_add_left _ _⟩
  | case6 now s span rest hd ih =>
    rw [Arrival.waits_pause, ← Nat.add_assoc] at hw
    obtain ⟨found, short⟩ := ih hw (by simpa [Arrival.counts] using h)
    exact ⟨found, Nat.le_trans short (Nat.le_add_left _ _)⟩
  | case7 now s span rest hd =>
    rw [Arrival.waits_pause, ← Nat.add_assoc] at hw
    exact absurd (Nat.le_trans (Nat.le_add_right _ _) hw) hd
  | case8 now s instant rest hd ih =>
    rw [Arrival.waits_due] at hw
    have less : now + Arrival.waits rest ≤ now + (instant + Arrival.waits rest) :=
      Nat.add_le_add_left (Nat.le_add_left _ _) now
    obtain ⟨found, short⟩ := ih (Nat.le_trans less hw) (by simpa [Arrival.counts] using h)
    exact ⟨found, Nat.le_trans short (Nat.le_add_left _ _)⟩
  | case9 now s instant rest hd hd' ih =>
    rw [Arrival.waits_due] at hw
    have enough := Nat.le_trans (Nat.le_add_left _ now) hw
    obtain ⟨found, short⟩ := ih enough (by simpa [Arrival.counts] using h)
    exact ⟨found, Nat.le_trans short (Nat.le_add_left _ _)⟩
  | case10 now s instant rest hd hd' =>
    rw [Arrival.waits_due] at hw
    have enough := Nat.le_trans (Nat.le_add_left _ now) hw
    exact absurd (Nat.le_trans (Nat.le_add_right _ _) enough) hd'
  | case11 => exact ⟨rfl, Nat.le_add_left _ _⟩
  | case12 => cases h

theorem pull_patient (hw : now + Arrival.waits i.feed ≤ deadline)
    (h : expired (i.timeless.pull f deadline' now').1 = false) :
    expired (i.pull f deadline now).1 = false ∧
      Arrival.waits (i.pull f deadline now).2.1.feed ≤ Arrival.waits i.feed := by
  obtain ⟨buffer, feed⟩ := i
  rw [timeless] at h
  unfold pull at h ⊢
  dsimp only at h hw ⊢
  by_cases hb : buffer.isEmpty
  · rw [if_pos hb] at h ⊢
    exact await_patient hw h
  · rw [if_neg hb] at h ⊢
    cases hc : f.consume f.initial buffer with
    | more s =>
      rw [hc] at h
      exact await_patient hw h
    | done a left => exact ⟨rfl, Nat.le_refl _⟩
    | broken e left => exact ⟨rfl, Nat.le_refl _⟩

end Inbox

namespace Stream

variable {f : Framing σ ε α} {limit : Duration} {s s' : Stream} {state : σ}

theorem write_of_isOpen (h : s.outlet.IsOpen) (bytes : Bytes) (limit : Duration) :
    (s.write bytes limit).1 = .all ∧ (s.write bytes limit).2.outlet = s.outlet := by
  unfold write
  rw [Outlet.accept_of_isOpen h]
  exact ⟨rfl, rfl⟩

def timeless (s : Stream) : Stream :=
  ⟨s.inbox.timeless, s.outlet, 0, s.sent.map fun sent => ⟨0, sent.bytes⟩, s.shut⟩

theorem expired_of_read (hf : f.Seamless) (h : s.read f limit = (.expired state, s')) :
    ∃ taken, s.content = taken ++ s'.content ∧
      (taken = [] ∧ state = f.initial ∧ s'.timeless = s.timeless ∨
        taken ≠ [] ∧ f.consume f.initial taken = .more state) := by
  unfold read at h
  dsimp only at h
  obtain ⟨item, rfl⟩ := Prod.mk.inj h
  obtain ⟨taken, content, hs⟩ := Inbox.expired_of_pull hf (Prod.ext item rfl)
  refine ⟨taken, content, ?_⟩
  rcases hs with ⟨rfl, rfl, hi⟩ | hc
  · exact .inl ⟨rfl, rfl, by simp only [timeless, hi]⟩
  · exact .inr hc

theorem read_timeless (h : Inbox.expired (s.read f limit).1 = false) (limit' : Duration) :
    s.timeless.read f limit' = ((s.read f limit).1, (s.read f limit).2.timeless) := by
  unfold read timeless at *
  dsimp only at *
  rw [Inbox.pull_timeless h]

/-- Unless it stalls, a write does not depend on the time. -/
theorem write_timeless {bytes : Bytes} (h : (s.write bytes limit).1 ≠ .stalled)
    (limit' : Duration) :
    s.timeless.write bytes limit' =
      ((s.write bytes limit).1, (s.write bytes limit).2.timeless) := by
  unfold write timeless at *
  dsimp only at *
  generalize s.outlet.accept bytes.length = accepted at h ⊢
  obtain ⟨count, refusal, outlet⟩ := accepted
  cases refusal with
  | none => simp
  | some refusal =>
    cases refusal with
    | stall => exact absurd rfl h
    | error | nothing =>
      by_cases hc : count = 0
      · simp [hc]
      · simp [hc]

/-- What comes of a write does not depend on the time. -/
theorem written_timeless (bytes : Bytes) (limit limit' : Duration) (s : Stream) :
    (s.timeless.write bytes limit').1 = (s.write bytes limit).1 := by
  unfold write
  dsimp only [timeless]
  generalize s.outlet.accept bytes.length = accepted
  obtain ⟨count, refusal, outlet⟩ := accepted
  cases refusal with
  | none => rfl
  | some refusal => cases refusal <;> rfl

/-- Within a limit that allows for all waits a read comes to its end, unless it could never come to
one. -/
theorem read_patient (hw : Arrival.waits s.inbox.feed ≤ limit) {limit' : Duration}
    (h : Inbox.expired (s.timeless.read f limit').1 = false) :
    Inbox.expired (s.read f limit).1 = false ∧
      Arrival.waits (s.read f limit).2.inbox.feed ≤ Arrival.waits s.inbox.feed :=
  Inbox.pull_patient (Nat.add_le_add_left hw s.clock) h

end Stream
end MailClient.Wire
