import MailClient.Wire.Source

/-! What is left of a source after its next octets, in whatever steps they are read: the pieces
behind them are as they were. -/
namespace MailClient.Wire.Source

def afterFrom (n : Nat) (buffer : Bytes) : List Bytes → Source
  | [] => ⟨buffer.drop n, []⟩
  | p :: ps =>
    if n ≤ buffer.length then ⟨buffer.drop n, p :: ps⟩ else afterFrom (n - buffer.length) p ps

def after (n : Nat) (s : Source) : Source := afterFrom n s.buffer s.feed

variable {m n : Nat} {s : Source}

/-! ### Filling the buffer -/

theorem content_refill (feed : List Bytes) : (refill feed).content = feed.flatten := by
  induction feed with
  | nil => rfl
  | cons p ps ih =>
    by_cases h : p = []
    · simpa [refill, h] using ih
    · simp [refill, h, content]

@[simp] theorem content_fill (s : Source) : s.fill.content = s.content := by
  by_cases h : s.buffer = []
  · rw [fill, if_pos (List.isEmpty_iff.mpr h), content_refill, content, h, List.nil_append]
  · simp [fill, h]

theorem refill_of_flatten_eq_nil {feed : List Bytes} (h : feed.flatten = []) :
    refill feed = ⟨[], []⟩ := by
  induction feed with
  | nil => rfl
  | cons p ps ih =>
    obtain ⟨hp, hps⟩ := List.append_eq_nil_iff.mp h
    simpa [refill, hp] using ih hps

/-- The buffer is filled as long as anything comes. -/
theorem buffer_refill_ne_nil {feed : List Bytes} (h : feed.flatten ≠ []) :
    (refill feed).buffer ≠ [] := by
  induction feed with
  | nil => exact absurd rfl h
  | cons p ps ih =>
    by_cases hp : p = []
    · simpa [refill, hp] using ih (by simpa [hp] using h)
    · simp [refill, hp]

theorem fill_of_content_eq_nil (h : s.content = []) : s.fill = ⟨[], []⟩ := by
  obtain ⟨hb, hf⟩ := List.append_eq_nil_iff.mp h
  simpa [fill, hb] using refill_of_flatten_eq_nil hf

theorem buffer_fill_ne_nil (h : s.content ≠ []) : s.fill.buffer ≠ [] := by
  by_cases hb : s.buffer = []
  · simpa [fill, hb] using buffer_refill_ne_nil (by simpa [content, hb] using h)
  · simp [fill, hb]

theorem buffer_isPrefix_content (s : Source) : s.buffer <+: s.content := List.prefix_append _ _

theorem take_content_of_le (h : n ≤ s.buffer.length) : s.content.take n = s.buffer.take n :=
  List.take_append_of_le_length h

/-! ### What is left -/

@[simp] theorem after_zero (s : Source) : s.after 0 = s := by
  rcases s with ⟨buffer, _ | ⟨p, ps⟩⟩
  · rfl
  · simp [after, afterFrom]

theorem after_of_le (h : n ≤ s.buffer.length) : s.after n = s.consume n := by
  rcases s with ⟨buffer, _ | ⟨p, ps⟩⟩
  · rfl
  · exact if_pos h

theorem content_after (n : Nat) (s : Source) : (s.after n).content = s.content.drop n := by
  obtain ⟨buffer, feed⟩ := s
  show (afterFrom n buffer feed).content = (buffer ++ feed.flatten).drop n
  induction feed generalizing n buffer with
  | nil => simp [afterFrom, content]
  | cons p ps ih =>
    by_cases h : n ≤ buffer.length
    · simp [afterFrom, h, content, List.drop_append_of_le_length h]
    · have past : (buffer ++ (p ++ ps.flatten)).drop n =
          (p ++ ps.flatten).drop (n - buffer.length) := by
        rw [List.drop_append, List.drop_eq_nil_of_le (Nat.le_of_not_le h), List.nil_append]
      rw [afterFrom, if_neg h, ih]
      exact past.symm

theorem after_add (m n : Nat) (s : Source) : s.after (m + n) = (s.after m).after n := by
  obtain ⟨buffer, feed⟩ := s
  show afterFrom (m + n) buffer feed = (afterFrom m buffer feed).after n
  induction feed generalizing m buffer with
  | nil => simp [afterFrom, after]
  | cons p ps ih =>
    by_cases hm : m ≤ buffer.length
    · rw [afterFrom, afterFrom, if_pos hm, after]
      show _ = if n ≤ (buffer.drop m).length then _ else afterFrom (n - (buffer.drop m).length) p ps
      rw [List.length_drop]
      by_cases hn : m + n ≤ buffer.length
      · rw [if_pos hn, if_pos (by omega), List.drop_drop]
      · rw [if_neg hn, if_neg (by omega)]
        congr 1
        omega
    · rw [afterFrom, afterFrom, if_neg hm, if_neg (by omega), ← ih]
      congr 1
      omega

theorem after_fill (h : 0 < n) (s : Source) : s.fill.after n = s.after n := by
  obtain ⟨buffer, feed⟩ := s
  by_cases hb : buffer = []
  · subst hb
    show (refill feed).after n = afterFrom n [] feed
    induction feed with
    | nil => rfl
    | cons p ps ih =>
      rw [afterFrom, if_neg (show ¬n ≤ ([] : Bytes).length from Nat.not_le_of_lt h)]
      by_cases hp : p = []
      · subst hp
        exact ih
      · simp [refill, hp, after]
  · simp [fill, hb]

theorem after_of_lt (h : s.content.length < n) : s.after n = ⟨[], []⟩ := by
  obtain ⟨buffer, feed⟩ := s
  show afterFrom n buffer feed = _
  induction feed generalizing n buffer with
  | nil =>
    simp only [content, List.flatten_nil, List.append_nil] at h
    rw [afterFrom, List.drop_eq_nil_of_le (Nat.le_of_lt h)]
  | cons p ps ih =>
    simp only [content, List.flatten_cons, List.length_append] at h
    rw [afterFrom, if_neg (by omega)]
    apply ih
    simp only [content, List.length_append]
    omega

end MailClient.Wire.Source
