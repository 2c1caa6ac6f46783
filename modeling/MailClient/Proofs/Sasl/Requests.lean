import MailClient.Sasl.Token

/-! Requests for tokens by several connections, which share one cache. To read the cache, to write
it and to remove a token from it are single steps, and to ask the source and to have its answer are
steps of their own, so that the steps of requests may follow each other in any order. -/
namespace MailClient.Sasl

namespace TokenCache

variable {τ : Type} (c : TokenCache τ) {identity other : String} (token : Token)

theorem find?_erase_self (identity : String) : (c.erase identity).find? identity = none := by
  simp only [find?, erase, Option.map_eq_none_iff, List.find?_eq_none]
  intro entry he
  simpa using (List.mem_filter.mp he).2

theorem find?_erase_of_ne (h : other ≠ identity) :
    (c.erase identity).find? other = c.find? other := by
  unfold find? erase
  rw [List.find?_filter]
  congr 2
  funext entry
  by_cases ho : entry.1 = other
  · simp [ho, h]
  · simp [ho]

theorem find?_insert_self (identity : String) :
    (c.insert identity token).find? identity = some token := by
  simp [find?, insert]

theorem find?_insert_of_ne (h : other ≠ identity) :
    (c.insert identity token).find? other = c.find? other := by
  rw [← c.find?_erase_of_ne h]
  have ne : (identity == other) = false := by simp [h.symm]
  simp [find?, insert, ne]

theorem find?_of_fresh? {c : TokenCache τ} {now : Timestamp} {token : Token}
    (h : c.fresh? now identity = some token) : c.find? identity = some token :=
  (Option.filter_eq_some_iff.mp h).1

end TokenCache

/-- How far a request has come. Moments are counted in steps. -/
inductive Stage where
  | asked
  /-- There was no token in the cache. -/
  | missed
  | fetching (since : Nat)
  /-- The source has answered, and the token is not yet in the cache. -/
  | fetched (since : Nat) (token : Token)
  /-- It has been given a token, with the moment when the fetch of that token began, if it was
  fetched at all. -/
  | granted (token : String) (since : Option Nat)
  | refused (e : Error)
  deriving DecidableEq, Repr

def Stage.result? : Stage → Option (Except Error String)
  | .granted token _ => some (.ok token)
  | .refused e => some (.error e)
  | .asked | .missed | .fetching _ | .fetched .. => none

structure TokenRequest where
  identity : String
  began : Nat
  stage : Stage
  deriving DecidableEq, Repr

inductive TokenStep where
  | ask (identity : String)
  /-- Request `i` reads the cache. -/
  | look (i : Nat) (now : Timestamp)
  | fetch (i : Nat)
  /-- The source has answered request `i`, or its time has run out. -/
  | answer (i : Nat) (r : Except Error Token)
  /-- Request `i` writes its token into the cache, and is given it. -/
  | keep (i : Nat)
  | invalidate (identity : String)
  /-- A token is put into the cache without a request. -/
  | restore (identity : String) (token : Token)

structure SharedTokens where
  cache : TokenCache Unit
  /-- When the fetch of the token in the cache began. No step depends on it. -/
  origin : String → Option Nat
  requests : List TokenRequest
  /-- The number of steps so far. -/
  clock : Nat

namespace SharedTokens

def start (cache : TokenCache Unit) : SharedTokens := ⟨cache, fun _ => none, [], 0⟩

def setStage (i : Nat) (stage : Stage) (s : SharedTokens) : SharedTokens :=
  { s with requests := s.requests.modify i fun r => { r with stage := stage } }

@[simp] theorem setStage_cache (i : Nat) (stage : Stage) (s : SharedTokens) :
    (s.setStage i stage).cache = s.cache := rfl

@[simp] theorem setStage_origin (i : Nat) (stage : Stage) (s : SharedTokens) :
    (s.setStage i stage).origin = s.origin := rfl

def write (identity : String) (token : Token) (since : Option Nat) (s : SharedTokens) :
    SharedTokens :=
  { s with
    cache := s.cache.insert identity token
    origin := fun other => if other = identity then since else s.origin other }

def erase (identity : String) (s : SharedTokens) : SharedTokens :=
  { s with cache := s.cache.erase identity }

/-- What a step does. One that its request is not ready for does nothing. -/
def act (s : SharedTokens) : TokenStep → SharedTokens
  | .ask identity => { s with requests := s.requests ++ [⟨identity, s.clock, .asked⟩] }
  | .look i now =>
    match s.requests[i]? with
    | some ⟨identity, _, .asked⟩ =>
      match s.cache.fresh? now identity with
      | some token => s.setStage i (.granted token.accessToken (s.origin identity))
      | none => s.setStage i .missed
    | _ => s
  | .fetch i =>
    match s.requests[i]? with
    | some ⟨_, _, .missed⟩ => s.setStage i (.fetching s.clock)
    | _ => s
  | .answer i r =>
    match s.requests[i]? with
    | some ⟨_, _, .fetching since⟩ =>
      match r with
      | .ok token => s.setStage i (.fetched since token)
      | .error e => s.setStage i (.refused e)
    | _ => s
  | .keep i =>
    match s.requests[i]? with
    | some ⟨identity, _, .fetched since token⟩ =>
      (s.setStage i (.granted token.accessToken (some since))).write identity token (some since)
    | _ => s
  | .invalidate identity => s.erase identity
  | .restore identity token => s.write identity token none

def step (s : SharedTokens) (t : TokenStep) : SharedTokens :=
  { s.act t with clock := s.clock + 1 }

def run (s : SharedTokens) (ts : List TokenStep) : SharedTokens := ts.foldl step s

/-! ### What a step does to a request -/

theorem getElem?_setStage (i j : Nat) (stage : Stage) (s : SharedTokens) :
    (s.setStage i stage).requests[j]? =
      if i = j then (s.requests[j]?).map fun r => { r with stage := stage }
      else s.requests[j]? := by
  unfold setStage
  rw [List.getElem?_modify]
  by_cases h : i = j
  · simp [h]
  · simp [h]

inductive Moved (s : SharedTokens) (i : Nat) :
    TokenStep → Option TokenRequest → TokenRequest → Prop where
  | still {t r} : Moved s i t (some r) r
  | begun {identity} : Moved s i (.ask identity) none ⟨identity, s.clock, .asked⟩
  | hit {identity began now token} : s.cache.fresh? now identity = some token →
      Moved s i (.look i now) (some ⟨identity, began, .asked⟩)
        ⟨identity, began, .granted token.accessToken (s.origin identity)⟩
  | missed {identity began now} :
      Moved s i (.look i now) (some ⟨identity, began, .asked⟩) ⟨identity, began, .missed⟩
  | fetching {identity began} :
      Moved s i (.fetch i) (some ⟨identity, began, .missed⟩) ⟨identity, began, .fetching s.clock⟩
  | fetched {identity began since token} :
      Moved s i (.answer i (.ok token)) (some ⟨identity, began, .fetching since⟩)
        ⟨identity, began, .fetched since token⟩
  | refused {identity began since e} :
      Moved s i (.answer i (.error e)) (some ⟨identity, began, .fetching since⟩)
        ⟨identity, began, .refused e⟩
  | kept {identity began since token} :
      Moved s i (.keep i) (some ⟨identity, began, .fetched since token⟩)
        ⟨identity, began, .granted token.accessToken (some since)⟩

variable {s : SharedTokens} {t : TokenStep} {ts : List TokenStep} {i j : Nat} {r : TokenRequest}
  {stage : Stage}

/-- A stage that is set for one request, from a stage in which it was. -/
theorem moved_setStage {r₀ : TokenRequest} (h₀ : s.requests[j]? = some r₀)
    (moves : Moved s j t (some r₀) { r₀ with stage := stage })
    (h : (s.setStage j stage).requests[i]? = some r) : Moved s i t s.requests[i]? r := by
  rw [getElem?_setStage] at h
  by_cases hj : j = i
  · subst hj
    rw [if_pos rfl, h₀] at h
    cases h
    rw [h₀]
    exact moves
  · rw [if_neg hj] at h
    rw [h]
    exact .still

theorem moved_step (h : (s.step t).requests[i]? = some r) : Moved s i t s.requests[i]? r := by
  replace h : (s.act t).requests[i]? = some r := h
  have still : s.requests[i]? = some r → Moved s i t s.requests[i]? r := by
    intro h
    rw [h]
    exact .still
  cases t with
  | ask identity =>
    simp only [act] at h
    by_cases hi : i < s.requests.length
    · rw [List.getElem?_append_left hi] at h
      exact still h
    · rw [List.getElem?_append_right (Nat.le_of_not_lt hi)] at h
      obtain ⟨hi', rfl⟩ := List.getElem?_eq_some_iff.mp h
      rw [List.getElem?_eq_none (Nat.le_of_not_lt hi)]
      simp only [List.length_singleton, Nat.lt_one_iff] at hi'
      simp only [hi', List.getElem_cons_zero]
      exact .begun
  | look j now =>
    simp only [act] at h
    split at h
    next identity began hr =>
      split at h
      next token hf => exact moved_setStage hr (.hit hf) h
      next => exact moved_setStage hr .missed h
    next => exact still h
  | fetch j =>
    simp only [act] at h
    split at h
    next hr => exact moved_setStage hr .fetching h
    next => exact still h
  | answer j answer =>
    simp only [act] at h
    split at h
    next hr =>
      cases answer with
      | ok token => exact moved_setStage hr .fetched h
      | error e => exact moved_setStage hr .refused h
    next => exact still h
  | keep j =>
    simp only [act] at h
    split at h
    next hr => exact moved_setStage hr .kept h
    next => exact still h
  | invalidate identity => exact still h
  | restore identity token => exact still h

theorem length_setStage (i : Nat) (stage : Stage) (s : SharedTokens) :
    (s.setStage i stage).requests.length = s.requests.length := List.length_modify ..

theorem length_step (s : SharedTokens) (t : TokenStep) :
    s.requests.length ≤ (s.step t).requests.length := by
  have set : ∀ i stage, s.requests.length ≤ (s.setStage i stage).requests.length := by
    intro i stage
    exact Nat.le_of_eq (length_setStage i stage s).symm
  show s.requests.length ≤ (s.act t).requests.length
  cases t with
  | ask identity =>
    rw [act, List.length_append]
    exact Nat.le_add_right _ _
  | look i now =>
    rw [act]
    split
    · split
      · exact set ..
      · exact set ..
    · exact Nat.le_refl _
  | fetch i =>
    rw [act]
    split
    · exact set ..
    · exact Nat.le_refl _
  | answer i r =>
    rw [act]
    split
    · split
      · exact set ..
      · exact set ..
    · exact Nat.le_refl _
  | keep i =>
    rw [act]
    split
    · exact set ..
    · exact Nat.le_refl _
  | invalidate identity => exact Nat.le_refl _
  | restore identity token => exact Nat.le_refl _

/-! ### A request that is let alone -/

def inTime (limit : Duration) : Except Error Token × Duration → Except Error Token
  | (r, elapsed) => if limit < elapsed then .error (.tokenTimeout limit) else r

def alone (i : Nat) (now : Timestamp) (identity : String) (r : Except Error Token) :
    List TokenStep :=
  [.ask identity, .look i now, .fetch i, .answer i r, .keep i]

theorem fresh?_congr {τ : Type} {c : TokenCache Unit} {c' : TokenCache τ}
    (h : c.entries = c'.entries) (now : Timestamp) (identity : String) :
    c.fresh? now identity = c'.fresh? now identity := by
  unfold TokenCache.fresh? TokenCache.find?
  rw [h]

theorem entries_insert {τ : Type} {c : TokenCache Unit} {c' : TokenCache τ}
    (h : c.entries = c'.entries) (identity : String) (token : Token) :
    (c.insert identity token).entries = (c'.insert identity token).entries := by
  simp [TokenCache.insert, TokenCache.erase, h]

/-- Without steps of others in between, a request is given what the cache gives out as a whole,
and leaves behind what that leaves. -/
theorem run_alone {τ : Type} (source : TokenSource τ) (now : Timestamp) (identity : String)
    (limit : Duration) (c : TokenCache τ) (s : SharedTokens) (h : s.cache.entries = c.entries) :
    let r := inTime limit (source identity c.source).1
    let s' := s.run (alone s.requests.length now identity r)
    s'.cache.entries = (TokenCache.get source now identity limit c).2.entries ∧
    (s'.requests[s.requests.length]?.bind fun r => r.stage.result?) =
      some (TokenCache.get source now identity limit c).1.1 := by
  dsimp only
  generalize hi : s.requests.length = i
  have asked : (s.requests ++ [⟨identity, s.clock, .asked⟩])[i]? =
      some ⟨identity, s.clock, .asked⟩ := by
    rw [← hi, List.getElem?_concat_length]
  have same := fresh?_congr h now identity
  cases hf : c.fresh? now identity with
  | some token =>
    rw [hf] at same
    simp [alone, run, step, act, asked, same, getElem?_setStage, TokenCache.get, hf, h,
      Stage.result?]
  | none =>
    rw [hf] at same
    rcases ha : source identity c.source with ⟨⟨r, elapsed⟩, after⟩
    by_cases hl : limit < elapsed
    · simp [alone, run, step, act, asked, same, getElem?_setStage, TokenCache.get, hf, h,
        Stage.result?, ha, inTime, hl]
    · cases r with
      | error e =>
        simp [alone, run, step, act, asked, same, getElem?_setStage, TokenCache.get, hf, h,
          Stage.result?, ha, inTime, hl]
      | ok token =>
        simp [alone, run, step, act, asked, same, getElem?_setStage, TokenCache.get, hf,
          Stage.result?, ha, inTime, hl, write]
        exact entries_insert h identity token

end SharedTokens
end MailClient.Sasl
