import MailClient.Wire.Inbox

/-! Framings that do not mind where the octets are cut. For them a read over any pieces is a read
over the octets that the pieces make up. -/
namespace MailClient.Wire

def Arrival.octets : Arrival → Bytes
  | .data bs => bs
  | _ => []

def Inbox.content (i : Inbox) : Bytes := i.buffer ++ i.feed.flatMap Arrival.octets

def Inbox.ofPieces (buffer : Bytes) (pieces : List Bytes) : Inbox := ⟨buffer, pieces.map .data⟩

theorem Inbox.content_ofPieces (buffer : Bytes) (pieces : List Bytes) :
    (Inbox.ofPieces buffer pieces).content = buffer ++ pieces.flatten := by
  unfold ofPieces content
  induction pieces with
  | nil => rfl
  | cons p ps ih => simpa [Arrival.octets] using ih

variable {σ ε α : Type}

theorem Inbox.await_ofPieces (f : Framing σ ε α) (s : σ) (pieces : List Bytes) :
    ∃ arrived left later, ∀ deadline now,
      await f deadline now s (pieces.map .data) = (arrived, ofPieces left later, now) := by
  induction pieces generalizing s with
  | nil => exact ⟨_, [], [], fun _ _ => rfl⟩
  | cons p ps ih =>
    by_cases hp : p.isEmpty
    · simpa only [List.map_cons, await, if_pos hp] using ih s
    · simp only [List.map_cons, await, if_neg hp]
      cases f.consume s p with
      | more s' => exact ih s'
      | done a left => exact ⟨.item a, left, ps, fun _ _ => rfl⟩
      | broken e left => exact ⟨.broken e, left, ps, fun _ _ => rfl⟩

/-- No time is spent on pieces, and the deadline does not matter. -/
theorem Inbox.pull_ofPieces (f : Framing σ ε α) (buffer : Bytes) (pieces : List Bytes) :
    ∃ arrived left later, ∀ deadline now,
      (ofPieces buffer pieces).pull f deadline now = (arrived, ofPieces left later, now) := by
  cases hb : buffer.isEmpty with
  | true => simpa only [pull, ofPieces, hb, if_true] using await_ofPieces f f.initial pieces
  | false =>
    simp only [pull, ofPieces, hb, Bool.false_eq_true, if_false]
    cases f.consume f.initial buffer with
    | more s => exact await_ofPieces f s pieces
    | done a left => exact ⟨.item a, left, pieces, fun _ _ => rfl⟩
    | broken e left => exact ⟨.broken e, left, pieces, fun _ _ => rfl⟩

/-- Where there are no more octets, the end of the stream is what is found. -/
theorem Inbox.await_of_empty (f : Framing σ ε α) (deadline now : Duration) (s : σ)
    {pieces : List Bytes} (h : pieces.flatten = []) :
    await f deadline now s (pieces.map .data) = (.broken (f.ended s), ofPieces [] [], now) := by
  induction pieces with
  | nil => rfl
  | cons p ps ih =>
    obtain ⟨rfl, rest⟩ := List.append_eq_nil_iff.mp h
    exact ih rest

theorem Inbox.pull_of_empty (f : Framing σ ε α) (deadline now : Duration) {buffer : Bytes}
    {pieces : List Bytes} (h : buffer ++ pieces.flatten = []) :
    (ofPieces buffer pieces).pull f deadline now =
      (.broken (f.ended f.initial), ofPieces [] [], now) := by
  obtain ⟨rfl, rest⟩ := List.append_eq_nil_iff.mp h
  exact await_of_empty f deadline now f.initial rest

structure Framing.Seamless (f : Framing σ ε α) : Prop where
  more : ∀ {s s' bs} later, f.consume s bs = .more s' →
    f.consume s (bs ++ later) = f.consume s' later
  done : ∀ {s bs a rest} later, f.consume s bs = .done a rest →
    f.consume s (bs ++ later) = .done a (rest ++ later)
  split : ∀ {s bs later a rest}, f.consume s (bs ++ later) = .done a rest →
    (∃ s', f.consume s bs = .more s' ∧ f.consume s' later = .done a rest) ∨
    ∃ left, f.consume s bs = .done a left ∧ rest = left ++ later

/-- An item is read from its own octets alone. -/
theorem Framing.Seamless.exact {f : Framing σ ε α} (hf : f.Seamless) {s : σ} {taken rest : Bytes}
    {a : α} (h : f.consume s (taken ++ rest) = .done a rest) : f.consume s taken = .done a [] := by
  rcases hf.split h with ⟨s', -, hd⟩ | ⟨left, hc, hl⟩
  · exact absurd (f.length_lt_of_done hd) (Nat.lt_irrefl _)
  · rw [List.self_eq_append_left.mp hl] at hc
    exact hc

namespace Inbox

variable {f : Framing σ ε α} {deadline now now' : Duration} {s : σ} {a : α} {i i' : Inbox}

/-! ### From a read to its octets -/

theorem consume_of_await (hf : f.Seamless) {feed : List Arrival}
    (h : await f deadline now s feed = (.item a, i, now')) :
    f.consume s (feed.flatMap Arrival.octets) = .done a i.content := by
  fun_induction await f deadline now s feed with
  | case1 => simp at h
  | case2 now s bs rest hb ih =>
    obtain rfl := List.isEmpty_iff.mp hb
    exact ih h
  | case3 now s bs rest _ s' hc ih => exact (hf.more _ hc).trans (ih h)
  | case4 now s bs rest _ a' left hc =>
    simp only [Prod.mk.injEq, Arrived.item.injEq] at h
    obtain ⟨rfl, rfl, -⟩ := h
    exact hf.done _ hc
  | case5 => simp at h
  | case6 _ _ _ _ _ ih => exact ih h
  | case7 => simp at h
  | case8 _ _ _ _ _ ih => exact ih h
  | case9 _ _ _ _ _ _ ih => exact ih h
  | case10 => simp at h
  | case11 => simp at h
  | case12 => simp at h

/-- An item that was read stands at the front of the content, whatever came in between. -/
theorem consume_of_pull (hf : f.Seamless) (h : i.pull f deadline now = (.item a, i', now')) :
    f.consume f.initial i.content = .done a i'.content := by
  unfold pull at h
  unfold content
  split at h
  next hb =>
    rw [List.isEmpty_iff.mp hb]
    exact consume_of_await hf h
  · split at h
    next s hc => exact (hf.more _ hc).trans (consume_of_await hf h)
    next a' left hc =>
      simp only [Prod.mk.injEq, Arrived.item.injEq] at h
      obtain ⟨rfl, rfl, -⟩ := h
      exact hf.done _ hc
    · simp at h

/-! ### From octets to a read -/

theorem await_of_consume (hf : f.Seamless) {pieces : List Bytes} {rest : Bytes}
    (h : f.consume s pieces.flatten = .done a rest) :
    ∃ left later, await f deadline now s (pieces.map .data) = (.item a, ofPieces left later, now) ∧
      left ++ later.flatten = rest := by
  induction pieces generalizing s with
  | nil =>
    have := f.length_lt_of_done h
    simp at this
  | cons p ps ih =>
    rw [List.flatten_cons] at h
    rw [List.map_cons, await]
    by_cases hp : p.isEmpty
    · obtain rfl := List.isEmpty_iff.mp hp
      exact ih h
    · rw [if_neg hp]
      rcases hf.split h with ⟨s', hc, hd⟩ | ⟨left, hc, rfl⟩
      · rw [hc]
        exact ih hd
      · rw [hc]
        exact ⟨left, ps, rfl, rfl⟩

/-- An item that stands at the front of the octets is read, however they are cut. -/
theorem pull_of_consume (hf : f.Seamless) {buffer rest : Bytes} {pieces : List Bytes}
    (h : f.consume f.initial (buffer ++ pieces.flatten) = .done a rest) :
    ∃ left later,
      (ofPieces buffer pieces).pull f deadline now = (.item a, ofPieces left later, now) ∧
      left ++ later.flatten = rest := by
  unfold pull ofPieces
  by_cases hb : buffer.isEmpty
  · rw [if_pos hb]
    rw [List.isEmpty_iff.mp hb] at h
    exact await_of_consume hf h
  · rw [if_neg hb]
    rcases hf.split h with ⟨s', hc, hd⟩ | ⟨left, hc, rfl⟩
    · dsimp only
      rw [hc]
      exact await_of_consume hf hd
    · dsimp only
      rw [hc]
      exact ⟨left, pieces, rfl, rfl⟩

/-! ### Octets that end too early -/

theorem await_of_short (hf : f.Seamless) (deadline now : Duration) {pieces : List Bytes}
    {missing : Bytes} (hm : missing ≠ [])
    (h : f.consume s (pieces.flatten ++ missing) = .done a []) :
    ∃ s', await f deadline now s (pieces.map .data) = (.broken (f.ended s'), ofPieces [] [], now) ∧
      (pieces.flatten = [] ∧ s' = s ∨ f.consume s pieces.flatten = .more s') := by
  induction pieces generalizing s with
  | nil => exact ⟨s, rfl, .inl ⟨rfl, rfl⟩⟩
  | cons p ps ih =>
    rw [List.flatten_cons] at h ⊢
    rw [List.map_cons, await]
    by_cases hp : p.isEmpty
    · obtain rfl := List.isEmpty_iff.mp hp
      exact ih h
    · rw [if_neg hp]
      rw [List.append_assoc] at h
      rcases hf.split h with ⟨s', hc, hd⟩ | ⟨left, hc, he⟩
      · obtain ⟨s'', ha, hs⟩ := ih hd
        rw [hc]
        refine ⟨s'', ha, .inr ?_⟩
        rcases hs with ⟨he, rfl⟩ | hs
        · rw [he, List.append_nil, hc]
        · rw [hf.more _ hc, hs]
      · simp [hm] at he

/-- Where the end of an item is missing, the end of the stream is what is found. -/
theorem pull_of_short (hf : f.Seamless) (deadline now : Duration) {buffer missing : Bytes}
    {pieces : List Bytes}
    (hm : missing ≠ [])
    (h : f.consume f.initial (buffer ++ pieces.flatten ++ missing) = .done a []) :
    ∃ s', (ofPieces buffer pieces).pull f deadline now =
        (.broken (f.ended s'), ofPieces [] [], now) ∧
      (buffer ++ pieces.flatten = [] ∧ s' = f.initial ∨
        f.consume f.initial (buffer ++ pieces.flatten) = .more s') := by
  unfold pull ofPieces
  by_cases hb : buffer.isEmpty
  · rw [if_pos hb]
    rw [List.isEmpty_iff.mp hb] at h ⊢
    exact await_of_short hf deadline now hm h
  · rw [if_neg hb]
    rw [List.append_assoc] at h
    rcases hf.split h with ⟨s', hc, hd⟩ | ⟨left, hc, he⟩
    · obtain ⟨s'', ha, hs⟩ := await_of_short hf deadline now hm hd
      dsimp only
      rw [hc]
      refine ⟨s'', ha, .inr ?_⟩
      rcases hs with ⟨he, rfl⟩ | hs
      · rw [he, List.append_nil, hc]
      · rw [hf.more _ hc, hs]
    · simp [hm] at he

/-! ### A framing that gives up earlier -/

/-- If one framing differs from another only in that it may give up, then so do the reads. -/
theorem pull_of_stricter {g : Framing σ ε α} {P : ε → Prop} (hi : g.initial = f.initial)
    (he : g.ended = f.ended)
    (h : ∀ s bs, g.consume s bs = f.consume s bs ∨ ∃ e rest, g.consume s bs = .broken e rest ∧ P e)
    (i : Inbox) (deadline now : Duration) :
    i.pull g deadline now = i.pull f deadline now ∨
      ∃ e, P e ∧ ((i.pull g deadline now).1 = .broken e) := by
  have awaited : ∀ now s feed, await g deadline now s feed = await f deadline now s feed ∨
      ∃ e, P e ∧ (await g deadline now s feed).1 = .broken e := by
    intro now s feed
    fun_induction await f deadline now s feed with
    | case1 => exact .inl (by simp [await, he])
    | case2 now s bs rest hb ih => simpa [await, hb] using ih
    | case3 now s bs rest hb s' hc ih =>
      rcases h s bs with hg | ⟨e, left, hg, hp⟩
      · simpa [await, hb, hg, hc] using ih
      · exact .inr ⟨e, hp, by simp [await, hb, hg]⟩
    | case4 now s bs rest hb a' left hc =>
      rcases h s bs with hg | ⟨e, left, hg, hp⟩
      · exact .inl (by simp [await, hb, hg, hc])
      · exact .inr ⟨e, hp, by simp [await, hb, hg]⟩
    | case5 now s bs rest hb a' left hc =>
      rcases h s bs with hg | ⟨e, left, hg, hp⟩
      · exact .inl (by simp [await, hb, hg, hc])
      · exact .inr ⟨e, hp, by simp [await, hb, hg]⟩
    | case6 now s span rest hd ih => simpa [await, hd] using ih
    | case7 now s span rest hd => exact .inl (by simp [await, hd])
    | case8 now s instant rest hd ih => simpa [await, hd] using ih
    | case9 now s instant rest hd hd' ih => simpa [await, hd, hd'] using ih
    | case10 now s instant rest hd hd' => exact .inl (by simp [await, hd, hd'])
    | case11 => exact .inl (by simp [await])
    | case12 => exact .inl (by simp [await])
  unfold pull
  rw [hi]
  split
  · exact awaited _ _ _
  · rcases h f.initial i.buffer with hg | ⟨e, left, hg, hp⟩
    · rw [hg]
      split
      · exact awaited _ _ _
      · exact .inl rfl
      · exact .inl rfl
    · rw [hg]
      exact .inr ⟨e, hp, rfl⟩

end Inbox
end MailClient.Wire
