import MailClient.Proofs.Wire.Upgrading
import MailClient.Smtp.Request

/-! Requests to a mail server, by what they say and what they hear. Replies do not mind where their
octets are cut. -/
namespace MailClient.Smtp

namespace Reading

variable {r r' : Reading} {bs rest : Bytes} {reply : Reply}

theorem consume_more (later : Bytes) (h : r.consume bs = .more r') :
    r.consume (bs ++ later) = r'.consume later := by
  induction bs generalizing r with
  | nil =>
    cases h
    rfl
  | cons b bs ih =>
    rw [consume] at h
    rw [List.cons_append, consume]
    cases hm : r.step b with
    | more next =>
      rw [hm] at h
      exact ih h
    | done | broken =>
      rw [hm] at h
      cases h

theorem consume_done (later : Bytes) (h : r.consume bs = .done reply rest) :
    r.consume (bs ++ later) = .done reply (rest ++ later) := by
  induction bs generalizing r with
  | nil => cases h
  | cons b bs ih =>
    rw [consume] at h
    rw [List.cons_append, consume]
    cases hm : r.step b with
    | more next =>
      rw [hm] at h
      exact ih h
    | done =>
      rw [hm] at h
      cases h
      rfl
    | broken =>
      rw [hm] at h
      cases h

theorem consume_split {later : Bytes} (h : r.consume (bs ++ later) = .done reply rest) :
    (∃ r', r.consume bs = .more r' ∧ r'.consume later = .done reply rest) ∨
      ∃ left, r.consume bs = .done reply left ∧ rest = left ++ later := by
  induction bs generalizing r with
  | nil => exact .inl ⟨r, rfl, h⟩
  | cons b bs ih =>
    rw [consume]
    rw [List.cons_append, consume] at h
    cases hm : r.step b with
    | more next =>
      rw [hm] at h
      exact ih h
    | done =>
      rw [hm] at h
      cases h
      exact .inr ⟨bs, rfl, rfl⟩
    | broken =>
      rw [hm] at h
      cases h

theorem seamless : framing.Seamless where
  more := consume_more
  done := consume_done
  split := consume_split

end Reading

variable {u : Wire.Upgrade Reply} {s s₁ s₂ : Wire.Stream} {items : List Reply} {said : Bytes}
  {limit : Duration} {command : Command} {reply : Reply}

theorem written_readReply (limit : Duration) (s : Wire.Stream) :
    (readReply limit s).2.written = s.written := by
  unfold readReply
  rcases hr : s.read Reading.framing limit with ⟨r, s₁⟩
  have read := Wire.Stream.written_read Reading.framing limit s
  rw [hr] at read
  cases r with
  | _ => exact read

theorem talked_readReply (h : readReply limit s = (.ok reply, s₁)) :
    s.Talked Reading.framing [reply] [] s₁ := by
  unfold readReply at h
  split at h
  next hr =>
    cases h
    exact Wire.Stream.talked_read Reading.seamless hr
  all_goals cases h

theorem write_cases (bytes : Bytes) (limit : Duration) (s : Wire.Stream) :
    (∃ s₁, s.write bytes limit = (.all, s₁) ∧ write bytes limit s = (.ok (), s₁)) ∨
      ∃ e, (s.write bytes limit).1 ≠ .all ∧
        write bytes limit s = (.error e, (s.write bytes limit).2) := by
  unfold write
  split
  next hw => exact .inl ⟨_, hw, rfl⟩
  next hw => exact .inr ⟨_, by simp [hw], by rw [hw]⟩
  next hw => exact .inr ⟨_, by simp [hw], by rw [hw]⟩

theorem exchange_eq (bytes : Bytes) (limit : Duration) (s : Wire.Stream) :
    exchange bytes limit s = match write bytes limit s with
      | (.ok (), s) => readReply limit s
      | (.error e, s) => (.error e, s) := by
  change Action.bind (write bytes limit) (fun _ => readReply limit) s = _
  unfold Action.bind
  rcases write bytes limit s with ⟨_ | _, s'⟩ <;> rfl

theorem request_eq (command : Command) (limit : Duration) (s : Wire.Stream) :
    request command limit s = match write command.encode limit s with
      | (.ok (), s) => readReply limit s
      | (.error e, s) => (.error e, s) := exchange_eq command.encode limit s

/-- A request that may be made now says no more than it may, whatever comes of it. -/
theorem kept_request (h : u.Keeps Reading.framing s items said s₁)
    (may : said ++ command.encode <+: u.speech items) (limit : Duration) :
    u.Kept Reading.framing s (request command limit s₁).2 := by
  rw [request_eq]
  rcases write_cases command.encode limit s₁ with ⟨s₂, hw, ho⟩ | ⟨e, -, ho⟩
  · rw [ho]
    refine ⟨_, _, s₂, h.speaks (Wire.Stream.talked_of_write _ hw) may, ?_⟩
    exact written_readReply limit s₂
  · rw [ho]
    obtain ⟨part, short, talked⟩ :=
      Wire.Stream.talked_write Reading.framing command.encode limit s₁
    exact (h.speaks talked ((List.prefix_self_append_iff.mpr short).trans may)).kept

theorem keeps_request (h : u.Keeps Reading.framing s items said s₁)
    (may : said ++ command.encode <+: u.speech items)
    (hr : request command limit s₁ = (.ok reply, s₂)) :
    u.Keeps Reading.framing s (items ++ [reply]) (said ++ command.encode) s₂ := by
  rw [request_eq] at hr
  rcases write_cases command.encode limit s₁ with ⟨s', hw, ho⟩ | ⟨e, -, ho⟩
  · rw [ho] at hr
    exact (h.speaks (Wire.Stream.talked_of_write _ hw) may).hears (talked_readReply hr)
  · rw [ho] at hr
    cases hr

end MailClient.Smtp
