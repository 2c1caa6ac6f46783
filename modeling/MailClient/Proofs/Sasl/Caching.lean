import MailClient.Proofs.Sasl.Requests

/-! The cache of tokens over a whole history of calls, in front of any source. What a request is
given follows from the history of its own identity: the token that came last is given out until it
is invalidated or about to expire, and otherwise the source is asked, once. -/
namespace MailClient.Sasl

structure Fetch where
  identity : String
  answer : Except Error Token
  elapsed : Duration

def TokenSource.recorded {τ : Type} (source : TokenSource τ) : TokenSource (τ × List Fetch) :=
  fun identity (s, fetches) =>
    let ((answer, elapsed), s') := source identity s
    ((answer, elapsed), s', fetches ++ [⟨identity, answer, elapsed⟩])

/-- The token never expires, or more than sixty seconds from now. -/
def Token.Lasts (now : Timestamp) (t : Token) : Prop :=
  ∀ e, t.expiresAt = some e →
    now.second + 60 < e.second ∨ now.second + 60 = e.second ∧ now.nano < e.nano

theorem Token.isExpired_eq_false_iff (now : Timestamp) (t : Token) :
    t.isExpired now = false ↔ t.Lasts now := by
  unfold Token.isExpired Token.Lasts
  cases t.expiresAt with
  | none => simp
  | some e => simp [Timestamp.before_iff, Timestamp.addSeconds]

inductive CacheCall where
  | insert (identity : String) (token : Token)
  | get (identity : String) (limit : Duration) (now : Timestamp)
  | invalidate (identity : String)

def CacheCall.identity : CacheCall → String
  | .insert identity _ | .get identity _ _ | .invalidate identity => identity

structure Served where
  call : CacheCall
  fetches : List Fetch
  result : Option (Except Error String × Duration)

namespace Served

inductive Supplies (identity : String) (token : Token) : Served → Prop where
  | inserted {fetches result} : Supplies identity token ⟨.insert identity token, fetches, result⟩
  | fetched {limit now elapsed result} : elapsed ≤ limit →
      Supplies identity token
        ⟨.get identity limit now, [⟨identity, .ok token, elapsed⟩], result⟩

/-- Whatever token came before, it is not given out after the call. -/
def Settles (identity : String) (d : Served) : Prop :=
  d.call = .invalidate identity ∨ ∃ token, d.Supplies identity token

variable {identity other : String} {token given : Token} {limit : Duration} {now : Timestamp}
  {fetches : List Fetch} {result : Option (Except Error String × Duration)}

@[simp] theorem supplies_insert_iff :
    Supplies other given ⟨.insert identity token, fetches, result⟩ ↔
      identity = other ∧ token = given := by
  constructor
  · rintro ⟨⟩
    exact ⟨rfl, rfl⟩
  · rintro ⟨rfl, rfl⟩
    exact .inserted

@[simp] theorem supplies_get_iff :
    Supplies other given ⟨.get identity limit now, fetches, result⟩ ↔
      identity = other ∧
        ∃ elapsed, elapsed ≤ limit ∧ fetches = [⟨identity, .ok given, elapsed⟩] := by
  constructor
  · rintro ⟨⟩
    exact ⟨rfl, _, ‹_›, rfl⟩
  · rintro ⟨rfl, elapsed, h, rfl⟩
    exact .fetched h

@[simp] theorem not_supplies_invalidate :
    ¬ Supplies other given ⟨.invalidate identity, fetches, result⟩ := by
  rintro ⟨⟩

theorem Settles.identity_eq {d : Served} (h : d.Settles identity) : d.call.identity = identity := by
  rcases h with h | ⟨token, h⟩
  · rw [h]
    rfl
  · cases h with
    | inserted => rfl
    | fetched => rfl

end Served

/-- The token is the last that was inserted or fetched in time, and it has not been invalidated
since then. -/
def Stands (identity : String) (token : Token) (history : List Served) : Prop :=
  ∃ before d after, history = before ++ d :: after ∧ d.Supplies identity token ∧
    ∀ d' ∈ after, ¬ d'.Settles identity

theorem stands_append_singleton {identity : String} {token : Token} {history : List Served}
    {d : Served} :
    Stands identity token (history ++ [d]) ↔
      d.Supplies identity token ∨ ¬ d.Settles identity ∧ Stands identity token history := by
  constructor
  · rintro ⟨before, d₀, after, split, supplies, quiet⟩
    rcases List.eq_nil_or_concat after with rfl | ⟨after, last, rfl⟩
    · obtain ⟨-, rfl⟩ := List.append_inj' split rfl |>.imp_right List.singleton_inj.mp
      exact .inl supplies
    · rw [List.concat_eq_append] at split quiet
      rw [← List.cons_append, ← List.append_assoc] at split
      obtain ⟨rfl, rfl⟩ := List.append_inj' split rfl |>.imp_right List.singleton_inj.mp
      refine .inr ⟨quiet d (by simp), before, d₀, after, rfl, supplies, ?_⟩
      intro d' hd
      exact quiet d' (List.mem_append_left _ hd)
  · rintro (supplies | ⟨unsettled, before, d₀, after, rfl, supplies, quiet⟩)
    · refine ⟨history, d, [], rfl, supplies, ?_⟩
      intro d' hd
      cases hd
    · refine ⟨before, d₀, after ++ [d], by simp, supplies, ?_⟩
      intro d' hd
      rcases List.mem_append.mp hd with hd | hd
      · exact quiet d' hd
      · obtain rfl := List.mem_singleton.mp hd
        exact unsettled

namespace TokenCache

variable {τ : Type}

/-- How a request comes out: what the source is asked, what the caller gets and how the cache is
left. A token may be given out as it is if it is `Ready`. -/
inductive Answered (source : TokenSource τ) (c : TokenCache τ) (identity : String)
    (limit : Duration) (Ready : Token → Prop) :
    List Fetch → (Except Error String × Duration) × TokenCache τ → Prop where
  | held {token} : Ready token →
      Answered source c identity limit Ready [] ((.ok token.accessToken, 0), c)
  | fetched {token elapsed c'} : (∀ held, ¬ Ready held) →
      source identity c.source = ((.ok token, elapsed), c'.source) → elapsed ≤ limit →
      c'.find? identity = some token →
      (∀ other, other ≠ identity → c'.find? other = c.find? other) →
      Answered source c identity limit Ready [⟨identity, .ok token, elapsed⟩]
        ((.ok token.accessToken, elapsed), c')
  | failed {e elapsed c'} : (∀ held, ¬ Ready held) →
      source identity c.source = ((.error e, elapsed), c'.source) → elapsed ≤ limit →
      c'.entries = c.entries →
      Answered source c identity limit Ready [⟨identity, .error e, elapsed⟩]
        ((.error e, elapsed), c')
  | late {answer elapsed c'} : (∀ held, ¬ Ready held) →
      source identity c.source = ((answer, elapsed), c'.source) → limit < elapsed →
      c'.entries = c.entries →
      Answered source c identity limit Ready [⟨identity, answer, elapsed⟩]
        ((.error (.tokenTimeout limit), limit), c')

def noting (c : TokenCache τ) : TokenCache (τ × List Fetch) := ⟨c.entries, c.source, []⟩

theorem fresh?_noting (c : TokenCache τ) (now : Timestamp) (identity : String) :
    c.noting.fresh? now identity = c.fresh? now identity := rfl

def fetches (source : TokenSource τ) (now : Timestamp) (identity : String) (limit : Duration)
    (c : TokenCache τ) : List Fetch :=
  (get source.recorded now identity limit c.noting).2.source.2

def serve (source : TokenSource τ) (c : TokenCache τ) : CacheCall → Served × TokenCache τ
  | .insert identity token => (⟨.insert identity token, [], none⟩, c.insert identity token)
  | .get identity limit now =>
    let (result, c') := get source now identity limit c
    (⟨.get identity limit now, fetches source now identity limit c, some result⟩, c')
  | .invalidate identity => (⟨.invalidate identity, [], none⟩, c.erase identity)

def run (source : TokenSource τ) (c : TokenCache τ) : List CacheCall → List Served × TokenCache τ
  | [] => ([], c)
  | call :: calls =>
    let (d, c) := serve source c call
    let (history, c) := run source c calls
    (d :: history, c)

variable {source : TokenSource τ} {c : TokenCache τ} {now : Timestamp} {identity other : String}
  {limit : Duration} {token : Token}

/-! ### One call -/

theorem fresh?_eq_some_iff :
    c.fresh? now identity = some token ↔ c.find? identity = some token ∧ token.Lasts now := by
  unfold fresh?
  rw [Option.filter_eq_some_iff, ← Token.isExpired_eq_false_iff, Bool.not_eq_true']

theorem find?_congr {c' : TokenCache τ} (h : c'.entries = c.entries) (identity : String) :
    c'.find? identity = c.find? identity := by
  unfold find?
  rw [h]

theorem get_of_some (source : TokenSource τ) (limit : Duration)
    (h : c.fresh? now identity = some token) :
    get source now identity limit c = ((.ok token.accessToken, 0), c) := by
  simp only [get, h]

def settle (identity : String) (limit : Duration) (answer : Except Error Token)
    (elapsed : Duration) (c : TokenCache τ) : (Except Error String × Duration) × TokenCache τ :=
  if limit < elapsed then ((.error (.tokenTimeout limit), limit), c)
  else match answer with
    | .ok token => ((.ok token.accessToken, elapsed), c.insert identity token)
    | .error e => ((.error e, elapsed), c)

section Answer

variable {answer : Except Error Token} {elapsed : Duration} {s : τ}

theorem get_of_none (limit : Duration) (h : c.fresh? now identity = none)
    (ha : source identity c.source = ((answer, elapsed), s)) :
    get source now identity limit c =
      settle identity limit answer elapsed { c with source := s } := by
  simp only [get, h, ha]
  rfl

/-- What happens once the source has answered depends on the token of the identity alone. -/
theorem settle_congr {σ : Type} {c' : TokenCache σ} (same : c'.find? identity = c.find? identity)
    (limit : Duration) (answer : Except Error Token) (elapsed : Duration) :
    (settle identity limit answer elapsed c').1 = (settle identity limit answer elapsed c).1 ∧
      (settle identity limit answer elapsed c').2.find? identity =
        (settle identity limit answer elapsed c).2.find? identity := by
  unfold settle
  by_cases hl : limit < elapsed
  · simp only [if_pos hl]
    exact ⟨trivial, same⟩
  · simp only [if_neg hl]
    cases answer with
    | error e => exact ⟨rfl, same⟩
    | ok token => exact ⟨rfl, (find?_insert_self ..).trans (find?_insert_self ..).symm⟩

theorem source_settle (identity : String) (limit : Duration) (answer : Except Error Token)
    (elapsed : Duration) (c : TokenCache τ) :
    (settle identity limit answer elapsed c).2.source = c.source := by
  unfold settle
  by_cases hl : limit < elapsed
  · rw [if_pos hl]
  · rw [if_neg hl]
    cases answer with
    | error e => rfl
    | ok token => rfl

theorem fetches_of_some (source : TokenSource τ) (limit : Duration)
    (h : c.fresh? now identity = some token) : fetches source now identity limit c = [] := by
  rw [fetches, get_of_some _ limit ((c.fresh?_noting now identity).trans h)]
  rfl

theorem get_recorded_of_none (limit : Duration) (h : c.fresh? now identity = none)
    (ha : source identity c.source = ((answer, elapsed), s)) :
    get source.recorded now identity limit c.noting =
      settle identity limit answer elapsed ⟨c.entries, s, [⟨identity, answer, elapsed⟩]⟩ := by
  have noted : source.recorded identity c.noting.source =
      ((answer, elapsed), s, [⟨identity, answer, elapsed⟩]) := by
    simp [noting, TokenSource.recorded, ha]
  exact get_of_none limit ((c.fresh?_noting now identity).trans h) noted

theorem fetches_of_none (limit : Duration) (h : c.fresh? now identity = none)
    (ha : source identity c.source = ((answer, elapsed), s)) :
    fetches source now identity limit c = [⟨identity, answer, elapsed⟩] := by
  rw [fetches, get_recorded_of_none limit h ha, source_settle]

end Answer

theorem answered_get (source : TokenSource τ) (now : Timestamp) (identity : String)
    (limit : Duration) (c : TokenCache τ) :
    Answered source c identity limit (fun token => c.fresh? now identity = some token)
      (fetches source now identity limit c) (get source now identity limit c) := by
  cases hf : c.fresh? now identity with
  | some token =>
    rw [get_of_some source limit hf, fetches_of_some source limit hf]
    exact .held rfl
  | none =>
    rcases ha : source identity c.source with ⟨⟨answer, elapsed⟩, s⟩
    rw [get_of_none limit hf ha, fetches_of_none limit hf ha]
    unfold settle
    have unready : ∀ held : Token, ¬ none = some held := by
      intro held h
      cases h
    by_cases hl : limit < elapsed
    · rw [if_pos hl]
      exact .late unready ha hl rfl
    · rw [if_neg hl]
      cases answer with
      | error e => exact .failed unready ha (Nat.le_of_not_lt hl) rfl
      | ok token =>
        apply Answered.fetched unready ha (Nat.le_of_not_lt hl) (find?_insert_self ..)
        intro other h
        exact find?_insert_of_ne _ token h

/-! ### What is in the cache -/

theorem serve_get (source : TokenSource τ) (c : TokenCache τ) (identity : String)
    (limit : Duration) (now : Timestamp) :
    serve source c (.get identity limit now) =
      (⟨.get identity limit now, fetches source now identity limit c,
        some (get source now identity limit c).1⟩, (get source now identity limit c).2) := rfl

theorem run_cons (source : TokenSource τ) (c : TokenCache τ) (call : CacheCall)
    (calls : List CacheCall) :
    run source c (call :: calls) =
      ((serve source c call).1 :: (run source (serve source c call).2 calls).1,
        (run source (serve source c call).2 calls).2) := rfl

/-- A call that does not settle an identity leaves its token alone, and one that does leaves the
token that the call supplies, if there is one. -/
theorem find?_serve (source : TokenSource τ) (c : TokenCache τ) (call : CacheCall)
    (other : String) (given : Token) :
    (serve source c call).2.find? other = some given ↔
      (serve source c call).1.Supplies other given ∨
        ¬ (serve source c call).1.Settles other ∧ c.find? other = some given := by
  cases call with
  | insert identity token =>
    by_cases h : other = identity
    · subst h
      simp [serve, Served.Settles, find?_insert_self]
    · simp [serve, Served.Settles, find?_insert_of_ne _ _ h, Ne.symm h]
  | invalidate identity =>
    by_cases h : other = identity
    · subst h
      simp [serve, Served.Settles, find?_erase_self]
    · simp [serve, Served.Settles, find?_erase_of_ne _ h, Ne.symm h]
  | get identity limit now =>
    have answered := answered_get source now identity limit c
    rw [serve_get]
    generalize fetches source now identity limit c = fetches at answered ⊢
    generalize get source now identity limit c = out at answered ⊢
    cases answered with
    | held ready => simp [Served.Settles]
    | fetched _ _ intime self others =>
      by_cases h : other = identity
      · subst h
        simp [Served.Settles, self, intime]
      · simp [Served.Settles, others other h, Ne.symm h]
    | failed _ _ _ kept => simp [Served.Settles, find?_congr kept]
    | late _ _ overtime kept =>
      simp [Served.Settles, find?_congr kept, Nat.not_le_of_lt overtime]

theorem find?_run_iff_stands (source : TokenSource τ) (calls : List CacheCall) {c : TokenCache τ}
    {history : List Served}
    (h : ∀ identity token, c.find? identity = some token ↔ Stands identity token history)
    (identity : String) (token : Token) :
    (run source c calls).2.find? identity = some token ↔
      Stands identity token (history ++ (run source c calls).1) := by
  induction calls generalizing c history with
  | nil => rw [run, List.append_nil, h]
  | cons call calls ih =>
    rw [run_cons, List.append_cons]
    apply ih
    intro identity token
    rw [find?_serve, stands_append_singleton, h]

/-! ### One identity by itself -/

def replay : TokenSource (List Fetch) := fun identity fetches =>
  match fetches with
  | [] => ((.error (.tokenUnavailable identity), 0), [])
  | f :: fetches => ((f.answer, f.elapsed), fetches)

theorem call_serve (source : TokenSource τ) (c : TokenCache τ) (call : CacheCall) :
    (serve source c call).1.call = call := by
  cases call <;> rfl

theorem find?_serve_of_ne (source : TokenSource τ) (c : TokenCache τ) {call : CacheCall}
    (h : call.identity ≠ identity) : (serve source c call).2.find? identity = c.find? identity := by
  have unsettled : ¬ (serve source c call).1.Settles identity := by
    intro settles
    exact h (call_serve source c call ▸ settles.identity_eq)
  ext token
  rw [find?_serve]
  constructor
  · rintro (supplies | ⟨-, h⟩)
    · exact absurd (.inr ⟨token, supplies⟩) unsettled
    · exact h
  · intro h
    exact .inr ⟨unsettled, h⟩

/-- If two caches hold the same token for an identity, then a call for it does the same to both. -/
theorem serve_replay {c' : TokenCache (List Fetch)} {call : CacheCall} {later : List Fetch}
    (same : c'.find? call.identity = c.find? call.identity)
    (given : c'.source = (serve source c call).1.fetches ++ later) :
    (serve replay c' call).1 = (serve source c call).1 ∧
      (serve replay c' call).2.source = later ∧
      (serve replay c' call).2.find? call.identity =
        (serve source c call).2.find? call.identity := by
  cases call with
  | insert identity token =>
    exact ⟨rfl, given, (find?_insert_self ..).trans (find?_insert_self ..).symm⟩
  | invalidate identity =>
    exact ⟨rfl, given, (find?_erase_self ..).trans (find?_erase_self ..).symm⟩
  | get identity limit now =>
    replace same : c'.find? identity = c.find? identity := same
    have fresh : c'.fresh? now identity = c.fresh? now identity := by rw [fresh?, same, fresh?]
    rw [serve_get] at given ⊢
    rw [serve_get]
    cases hf : c.fresh? now identity with
    | some token =>
      rw [hf] at fresh
      rw [fetches_of_some source limit hf] at given ⊢
      rw [fetches_of_some replay limit fresh, get_of_some source limit hf,
        get_of_some replay limit fresh]
      exact ⟨rfl, given, same⟩
    | none =>
      rw [hf] at fresh
      rcases ha : source identity c.source with ⟨⟨answer, elapsed⟩, s⟩
      rw [fetches_of_none limit hf ha] at given ⊢
      have replayed : replay identity c'.source = ((answer, elapsed), later) := by
        rw [given]
        rfl
      rw [fetches_of_none limit fresh replayed, get_of_none limit hf ha,
        get_of_none limit fresh replayed]
      have same : find? { c' with source := later } identity =
          find? { c with source := s } identity := same
      obtain ⟨result, kept⟩ := settle_congr same limit answer elapsed
      exact ⟨by rw [result], source_settle .., kept⟩

theorem run_replay (calls : List CacheCall) {c : TokenCache τ} {c' : TokenCache (List Fetch)}
    (same : c'.find? identity = c.find? identity)
    (given : c'.source =
      ((run source c calls).1.filter (·.call.identity = identity)).flatMap Served.fetches) :
    (run replay c' (calls.filter (·.identity = identity))).1 =
      (run source c calls).1.filter (·.call.identity = identity) := by
  induction calls generalizing c c' with
  | nil => rfl
  | cons call calls ih =>
    rw [run_cons] at given ⊢
    by_cases own : call.identity = identity
    · subst own
      rw [List.filter_cons_of_pos (by simp)]
      rw [List.filter_cons_of_pos (by simp [call_serve])] at given ⊢
      obtain ⟨deed, left, kept⟩ := serve_replay same given
      rw [run_cons, deed, ih kept left]
    · rw [List.filter_cons_of_neg (by simpa using own)]
      rw [List.filter_cons_of_neg (by simpa [call_serve] using own)] at given ⊢
      exact ih (same.trans (find?_serve_of_ne source c own).symm) given

theorem Answered.congr {Ready Ready' : Token → Prop} {asked : List Fetch}
    {out : (Except Error String × Duration) × TokenCache τ}
    (h : ∀ token, Ready token ↔ Ready' token)
    (answered : Answered source c identity limit Ready asked out) :
    Answered source c identity limit Ready' asked out := by
  obtain rfl : Ready = Ready' := funext fun token => propext (h token)
  exact answered

/-- After any calls, whatever the source answers, a request for an identity is given the token that
stands for it and lasts, and the source is asked once only if there is none. All that the calls
for one identity come to, they also come to without the calls for others, if the source answers
them the same. -/
theorem answered_run (source : TokenSource τ) (s : τ) (calls : List CacheCall) (identity : String)
    (limit : Duration) (now : Timestamp) :
    let (history, c) := run source ⟨[], s⟩ calls
    let own := history.filter (·.call.identity = identity)
    Answered source c identity limit
        (fun token => Stands identity token history ∧ token.Lasts now)
        (fetches source now identity limit c) (get source now identity limit c) ∧
      (run replay ⟨[], own.flatMap Served.fetches⟩ (calls.filter (·.identity = identity))).1 =
        own := by
  have start : ∀ identity token,
      find? ⟨[], s⟩ identity = some token ↔ Stands identity token [] := by
    intro identity token
    simp [find?, Stands]
  constructor
  · apply (answered_get source now identity limit _).congr
    intro token
    rw [fresh?_eq_some_iff, find?_run_iff_stands source calls start, List.nil_append]
  · exact run_replay calls rfl rfl

end TokenCache
end MailClient.Sasl
