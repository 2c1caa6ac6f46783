import MailClient.Proofs.Sasl.Requests

/-! Whether an invalidation counts for all connections, so that requests which begin after it are
given tokens fetched after it. It does, unless a token that was fetched before it comes into the
cache after it and is found there. -/
namespace MailClient.Sasl

namespace SharedTokens

/-- A request that begins after an invalidation is given a token whose fetch began after it. -/
def Invalidates (s : SharedTokens) (ts : List TokenStep) : Prop :=
  ∀ before identity after, ts = before ++ .invalidate identity :: after →
    ∀ (i : Nat) (r : TokenRequest), (s.run ts).requests[i]? = some r →
      r.identity = identity → before.length < r.began →
      ∀ token since, r.stage = .granted token since →
        ∃ moment, since = some moment ∧ before.length < moment

/-- The step puts a token for the identity into the cache, whose fetch began at the moment. -/
inductive Writes (s : SharedTokens) : TokenStep → String → Option Nat → Prop where
  | keep {i identity began since token} :
      s.requests[i]? = some ⟨identity, began, .fetched since token⟩ →
      Writes s (.keep i) identity (some since)
  | restore {identity token} : Writes s (.restore identity token) identity none

def Quiet (s : SharedTokens) (identity : String) (ts : List TokenStep) : Prop :=
  ∀ before t after since, ts = before ++ t :: after → ¬(s.run before).Writes t identity since

def Finds (s : SharedTokens) (j : Nat) (now : Timestamp) (identity : String) (moment : Nat) :
    Prop :=
  ∃ began, s.requests[j]? = some ⟨identity, began, .asked⟩ ∧ moment < began ∧
    (s.cache.fresh? now identity).isSome = true

/-- A token that was not fetched after an invalidation comes into the cache after it, and a request
that begins after the invalidation finds this token. -/
def Overtaken (s : SharedTokens) (ts : List TokenStep) : Prop :=
  ∃ before identity between w since later j now rest,
    ts = before ++ .invalidate identity :: between ++ w :: later ++ .look j now :: rest ∧
    let s₁ := s.run (before ++ .invalidate identity :: between)
    s₁.Writes w identity since ∧ (∀ moment, since = some moment → moment ≤ before.length) ∧
      (s₁.step w).Quiet identity later ∧ ((s₁.step w).run later).Finds j now identity before.length

variable {s : SharedTokens} {t : TokenStep} {ts : List TokenStep} {i : Nat} {r : TokenRequest}
  {identity : String} {since : Option Nat}

/-! ### Runs -/

@[simp] theorem run_nil (s : SharedTokens) : s.run [] = s := rfl

@[simp] theorem run_cons (s : SharedTokens) (t : TokenStep) (ts : List TokenStep) :
    s.run (t :: ts) = (s.step t).run ts := rfl

theorem run_append (s : SharedTokens) (ts us : List TokenStep) :
    s.run (ts ++ us) = (s.run ts).run us := List.foldl_append

theorem clock_run (s : SharedTokens) (ts : List TokenStep) :
    (s.run ts).clock = s.clock + ts.length := by
  induction ts generalizing s with
  | nil => rfl
  | cons t ts ih =>
    rw [run_cons, ih, List.length_cons]
    show s.clock + 1 + ts.length = _
    omega

/-! ### What is in the cache -/

theorem origin_of_writes (h : s.Writes t identity since) :
    (s.step t).origin identity = since := by
  cases h with
  | keep hr =>
    show (s.act _).origin identity = _
    simp [act, hr, write]
  | @restore _ token =>
    show (s.act (.restore identity token)).origin identity = none
    simp [act, write]

/-- Without a write, a token that is there has been there before. -/
theorem still_of_not_writes (h : ∀ since, ¬s.Writes t identity since) :
    (s.step t).origin identity = s.origin identity ∧
    (((s.step t).cache.find? identity).isSome = true →
      (s.cache.find? identity).isSome = true) := by
  show (s.act t).origin identity = _ ∧ (((s.act t).cache.find? identity).isSome = true → _)
  cases t with
  | ask other => exact ⟨rfl, id⟩
  | look j now =>
    simp only [act]
    split
    · split <;> exact ⟨rfl, id⟩
    · exact ⟨rfl, id⟩
  | fetch j =>
    simp only [act]
    split <;> exact ⟨rfl, id⟩
  | answer j answer =>
    simp only [act]
    split
    · split <;> exact ⟨rfl, id⟩
    · exact ⟨rfl, id⟩
  | keep j =>
    simp only [act]
    split
    next other began since token hr =>
      by_cases ho : identity = other
      · subst ho
        exact absurd (.keep hr) (h _)
      · constructor
        · exact if_neg ho
        · intro found
          rwa [write, TokenCache.find?_insert_of_ne _ _ ho] at found
    next => exact ⟨rfl, id⟩
  | invalidate other =>
    constructor
    · rfl
    · intro found
      simp only [act, erase] at found
      by_cases ho : identity = other
      · subst ho
        rw [TokenCache.find?_erase_self] at found
        cases found
      · rwa [TokenCache.find?_erase_of_ne _ ho] at found
  | restore other token =>
    by_cases ho : identity = other
    · subst ho
      exact absurd .restore (h none)
    · constructor
      · exact if_neg ho
      · intro found
        rwa [act, write, TokenCache.find?_insert_of_ne _ _ ho] at found

theorem quiet_cons : s.Quiet identity (t :: ts) ↔
    (∀ since, ¬s.Writes t identity since) ∧ (s.step t).Quiet identity ts := by
  constructor
  · intro h
    constructor
    · intro since
      exact h [] t ts since rfl
    · intro before u after since split
      exact h (t :: before) u after since (by rw [split]; rfl)
  · rintro ⟨first, rest⟩ before u after since split
    cases before with
    | nil =>
      cases split
      exact first since
    | cons t' before =>
      cases split
      exact rest before u after since rfl

theorem still_of_quiet (h : s.Quiet identity ts) :
    (s.run ts).origin identity = s.origin identity ∧
    (((s.run ts).cache.find? identity).isSome = true →
      (s.cache.find? identity).isSome = true) := by
  induction ts generalizing s with
  | nil => exact ⟨rfl, id⟩
  | cons t ts ih =>
    obtain ⟨first, rest⟩ := quiet_cons.mp h
    obtain ⟨origin, found⟩ := still_of_not_writes first
    obtain ⟨origin', found'⟩ := ih rest
    exact ⟨origin'.trans origin, fun h => found (found' h)⟩

theorem quiet_or_last_write (s : SharedTokens) (identity : String) (ts : List TokenStep) :
    s.Quiet identity ts ∨ ∃ between w since later, ts = between ++ w :: later ∧
      (s.run between).Writes w identity since ∧
      ((s.run between).step w).Quiet identity later := by
  induction ts generalizing s with
  | nil =>
    left
    intro before t after since split
    simp at split
  | cons t ts ih =>
    rcases ih (s.step t) with quiet | ⟨between, w, since, later, rfl, writes, quiet⟩
    · by_cases h : ∃ since, s.Writes t identity since
      · obtain ⟨since, writes⟩ := h
        exact .inr ⟨[], t, since, ts, rfl, writes, quiet⟩
      · left
        apply quiet_cons.mpr
        exact ⟨fun since writes => h ⟨since, writes⟩, quiet⟩
    · exact .inr ⟨t :: between, w, since, later, rfl, writes, quiet⟩

/-! ### What requests are given -/

def Dated (s : SharedTokens) : Prop :=
  ∀ (i : Nat) (r : TokenRequest), s.requests[i]? = some r → r.began < s.clock ∧
    ∀ moment, (r.stage = .fetching moment ∨ ∃ token, r.stage = .fetched moment token) →
      r.began < moment

theorem dated_start (cache : TokenCache Unit) : (start cache).Dated := by
  intro i r h
  simp [start] at h

theorem dated_step (h : s.Dated) (t : TokenStep) : (s.step t).Dated := by
  intro i r hr
  have clock : (s.step t).clock = s.clock + 1 := rfl
  rw [clock]
  generalize ho : s.requests[i]? = old at *
  have moves := moved_step hr
  rw [ho] at moves
  cases moves with
  | still =>
    obtain ⟨began, asked⟩ := h i r ho
    exact ⟨by omega, asked⟩
  | begun => exact ⟨Nat.lt_succ_self _, by simp⟩
  | hit | missed | refused | kept =>
    obtain ⟨began, -⟩ := h i _ ho
    exact ⟨Nat.lt_succ_of_lt began, by simp⟩
  | fetching =>
    obtain ⟨began, -⟩ := h i _ ho
    exact ⟨Nat.lt_succ_of_lt began, by simpa using began⟩
  | @fetched identity start since token =>
    obtain ⟨began, asked⟩ := h i _ ho
    refine ⟨Nat.lt_succ_of_lt began, ?_⟩
    rintro moment (hm | ⟨_, hm⟩)
    · cases hm
    · cases hm
      exact asked _ (.inl rfl)

theorem dated_run (h : s.Dated) (ts : List TokenStep) : (s.run ts).Dated := by
  induction ts generalizing s with
  | nil => exact h
  | cons t ts ih => exact ih (dated_step h t)

/-- A token that a request is given, it has fetched itself or found in the cache. -/
theorem granted_cases {token : String} (hs : s.Dated) (h : (s.run ts).requests[i]? = some r)
    (hg : r.stage = .granted token since) :
    s.requests[i]? = some r ∨
    (∃ moment, since = some moment ∧ r.began < moment) ∨
    ∃ before now after, ts = before ++ .look i now :: after ∧
      (s.run before).requests[i]? = some ⟨r.identity, r.began, .asked⟩ ∧
      ((s.run before).cache.fresh? now r.identity).isSome = true ∧
      (s.run before).origin r.identity = since := by
  -- The step that grants the token is the last one at which the request changes.
  induction ts generalizing s with
  | nil => exact .inl h
  | cons t ts ih =>
    rcases ih (dated_step hs t) h with here | own | ⟨before, now, after, rfl, asked, found, origin⟩
    · generalize ho : s.requests[i]? = old
      have moves := moved_step here
      rw [ho] at moves
      cases moves with
      | still => exact .inl rfl
      | hit hf =>
        cases hg
        exact .inr (.inr ⟨[], _, ts, rfl, ho, by simp [hf], rfl⟩)
      | kept =>
        cases hg
        exact .inr (.inl ⟨_, rfl, (hs i _ ho).2 _ (.inr ⟨_, rfl⟩)⟩)
      | begun | missed | fetching | fetched | refused => cases hg
    · exact .inr (.inl own)
    · exact .inr (.inr ⟨t :: before, now, after, rfl, asked, found, origin⟩)

/-- What a request has been given, it keeps. -/
theorem granted_step {token : String} (h : s.requests[i]? = some r)
    (hg : r.stage = .granted token since) (t : TokenStep) :
    (s.step t).requests[i]? = some r := by
  have hi := Nat.lt_of_lt_of_le (List.getElem?_eq_some_iff.mp h).1 (length_step s t)
  have moves := moved_step (List.getElem?_eq_getElem hi)
  rw [List.getElem?_eq_getElem hi]
  generalize (s.step t).requests[i] = r' at moves
  rw [h] at moves
  cases moves with
  | still => rfl
  | hit | missed | fetching | fetched | refused | kept => cases hg

theorem granted_run {token : String} (h : s.requests[i]? = some r)
    (hg : r.stage = .granted token since) (ts : List TokenStep) :
    (s.run ts).requests[i]? = some r := by
  induction ts generalizing s with
  | nil => exact h
  | cons t ts ih => exact ih (granted_step h hg t)

/-! ### When an invalidation counts -/

/-- Of two steps of a run, the one with fewer steps before it comes first. -/
theorem split_between {before after before' after' : List TokenStep} {x y : TokenStep}
    (h : before ++ x :: after = before' ++ y :: after') (hl : before.length < before'.length) :
    ∃ between, before' = before ++ x :: between ∧ after = between ++ y :: after' := by
  rcases List.append_eq_append_iff.mp h with ⟨between, rfl, hb⟩ | ⟨between, rfl, -⟩
  · cases between with
    | nil => simp at hl
    | cons z between =>
      obtain ⟨rfl, rfl⟩ := List.cons_eq_cons.mp hb
      exact ⟨between, rfl, rfl⟩
  · rw [List.length_append] at hl
    omega

theorem began_lt {cache : TokenCache Unit} {ts : List TokenStep}
    (h : ((start cache).run ts).requests[i]? = some r) : r.began < ts.length := by
  have began := (dated_run (dated_start cache) ts i r h).1
  rw [clock_run] at began
  simpa [start] using began

theorem invalidates_of_not_overtaken {cache : TokenCache Unit} {ts : List TokenStep}
    (h : ¬(start cache).Overtaken ts) : (start cache).Invalidates ts := by
  rintro before identity after rfl i r hr rfl hb token since hg
  rcases granted_cases (dated_start cache) hr hg with nothing | ⟨moment, rfl, own⟩ |
    ⟨before', now, rest, split, asked, found, origin⟩
  · simp [start] at nothing
  · exact ⟨moment, rfl, Nat.lt_trans hb own⟩
  -- The token was in the cache, so the last write of the identity put it there.
  have began := began_lt asked
  obtain ⟨between, rfl, rfl⟩ := split_between split (Nat.lt_trans hb began)
  have run_invalidate : ∀ ts : List TokenStep,
      (start cache).run (before ++ .invalidate r.identity :: ts) =
        (((start cache).run before).step (.invalidate r.identity)).run ts := by
    intro ts
    rw [run_append, run_cons]
  have gone : (((start cache).run before).step (.invalidate r.identity)).cache.find? r.identity =
      none := TokenCache.find?_erase_self ..
  rw [run_invalidate] at asked found origin
  rcases quiet_or_last_write (((start cache).run before).step (.invalidate r.identity)) r.identity
    between with quiet | ⟨earlier, w, since', later, rfl, writes, quiet⟩
  · obtain ⟨held, hf⟩ := Option.isSome_iff_exists.mp found
    have there := (still_of_quiet quiet).2 (by rw [TokenCache.find?_of_fresh? hf]; rfl)
    rw [gone] at there
    cases there
  · rw [run_append, run_cons] at asked found origin
    rw [(still_of_quiet quiet).1, origin_of_writes writes] at origin
    subst origin
    by_cases late : ∃ moment, since' = some moment ∧ before.length < moment
    · exact late
    · apply absurd _ h
      refine ⟨before, r.identity, earlier, w, since', later, i, now, rest, by simp, ?_⟩
      dsimp only
      rw [run_invalidate]
      refine ⟨writes, ?_, quiet, r.began, asked, hb, found⟩
      intro moment hm
      exact Nat.le_of_not_lt fun hl => late ⟨moment, hm, hl⟩

theorem granted_of_found {now : Timestamp} {began : Nat} {token : Token}
    (hr : s.requests[i]? = some ⟨identity, began, .asked⟩)
    (hf : s.cache.fresh? now identity = some token) :
    (s.step (.look i now)).requests[i]? =
      some ⟨identity, began, .granted token.accessToken (s.origin identity)⟩ := by
  show (s.act _).requests[i]? = _
  simp only [act, hr, hf, getElem?_setStage, if_pos, Option.map_some]

theorem not_invalidates_of_overtaken (h : s.Overtaken ts) : ¬s.Invalidates ts := by
  obtain ⟨before, identity, between, w, since, later, j, now, rest, rfl, writes, early, quiet,
    began, asked, hb, found⟩ := h
  intro counts
  obtain ⟨token, hf⟩ := Option.isSome_iff_exists.mp found
  have granted := granted_of_found asked hf
  rw [(still_of_quiet quiet).1, origin_of_writes writes] at granted
  have kept := granted_run granted rfl rest
  rw [← run_cons, ← run_cons, ← run_append, ← run_append] at kept
  obtain ⟨moment, rfl, hm⟩ := counts before identity (between ++ w :: later ++ .look j now :: rest)
    (by simp) j _ (by simpa using kept) rfl hb _ _ rfl
  exact absurd hm (Nat.not_lt.mpr (early moment rfl))

/-- An invalidation counts, unless a token that was not fetched after it gets into the cache after
it and is found there. Such a token can come from a fetch that was under way: the cache takes it
when it arrives, and does not know of the invalidation. -/
theorem invalidates_iff (cache : TokenCache Unit) (ts : List TokenStep) :
    (start cache).Invalidates ts ↔ ¬(start cache).Overtaken ts := by
  constructor
  · intro counts overtaken
    exact not_invalidates_of_overtaken overtaken counts
  · exact invalidates_of_not_overtaken

/-- The first request asks the source, and has its answer after the invalidation. The second begins
after the invalidation, and is given the old token. -/
def overlapping (now : Timestamp) (token : Token) : List TokenStep :=
  [.ask "user", .look 0 now, .fetch 0, .invalidate "user", .answer 0 (.ok token), .keep 0,
    .ask "user", .look 1 now]

theorem not_invalidates_overlapping :
    ((start ⟨[], ()⟩).run (overlapping ⟨0, 0⟩ (.bearer "old"))).requests[1]? =
      some ⟨"user", 6, .granted "old" (some 2)⟩ ∧
    ¬(start ⟨[], ()⟩).Invalidates (overlapping ⟨0, 0⟩ (.bearer "old")) := by
  have given : ((start ⟨[], ()⟩).run (overlapping ⟨0, 0⟩ (.bearer "old"))).requests[1]? =
      some ⟨"user", 6, .granted "old" (some 2)⟩ := by
    decide
  constructor
  · exact given
  · rw [invalidates_iff, Classical.not_not]
    refine ⟨[.ask "user", .look 0 ⟨0, 0⟩, .fetch 0], "user", [.answer 0 (.ok (.bearer "old"))],
      .keep 0, some 2, [.ask "user"], 1, ⟨0, 0⟩, [], rfl, .keep (i := 0) rfl, ?_, ?_, 6, rfl,
      by decide, rfl⟩
    · intro moment hm
      cases hm
      decide
    · apply quiet_cons.mpr
      constructor
      · intro since writes
        cases writes
      · intro before t after since split
        simp at split

end SharedTokens
end MailClient.Sasl
