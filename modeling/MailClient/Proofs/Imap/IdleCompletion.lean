import MailClient.Proofs.Imap.Operations

/-! Which completion ends an IDLE command. While the client idles, other commands may still be
completed. An IDLE command keeps to its own completion exactly as long as none of them is. -/
namespace MailClient.Imap

def Entry.completed? : Entry → Option Tag
  | .response r => r.tag?
  | _ => none

def completions (log : List Entry) : List Tag := log.filterMap Entry.completed?

section

variable (log log' : List Entry) (tag : Tag)

@[simp] theorem completions_nil : completions [] = [] := rfl

@[simp] theorem completions_tagged (status : Status) (code : Option (List Token)) (text : String) :
    completions (.response (.tagged tag status code text) :: log) = tag :: completions log := rfl

@[simp] theorem completions_untagged (u : Untagged) :
    completions (.response (.untagged u) :: log) = completions log := rfl

@[simp] theorem completions_continuation (text : String) :
    completions (.response (.continuation text) :: log) = completions log := rfl

@[simp] theorem completions_command (command : Command) :
    completions (.command tag command :: log) = completions log := rfl

@[simp] theorem completions_append :
    completions (log ++ log') = completions log ++ completions log' := List.filterMap_append

@[simp] theorem completions_said (us : List Untagged) : completions (Idling.said us) = [] := by
  induction us with
  | nil => rfl
  | cons u us ih => simpa using ih

end

def Error.isRefusal : Error → Bool
  | .no _ | .bad _ | .violation _ => true
  | _ => false

namespace Connection

variable {c c' : Connection} {e : Error} {limit : Duration}

def since (c' c : Connection) : List Entry := c'.transcript.drop c.transcript.length

theorem since_eq {log : List Entry} (h : c'.transcript = c.transcript ++ log) :
    c'.since c = log := by
  rw [since, h, List.drop_left]

/-! ### Reading and writing -/

theorem isRefusal_receive (h : receive limit c = (.error e, c')) : e.isRefusal = false := by
  unfold receive at h
  dsimp only at h
  split at h <;> cases h <;> rfl

theorem isRefusal_write {bytes : Bytes} {entry : Entry} (h : write bytes entry c = (.error e, c')) :
    e.isRefusal = false := by
  obtain ⟨-, -, ⟨f, rfl⟩ | rfl⟩ := write_error h
  · rfl
  · rfl

/-- A command that could not be sent has said nothing. -/
theorem send_failed {tag : Tag} {command : Command} (h : send tag command c = (.error e, c')) :
    c'.transcript = c.transcript ∧ (e.isRefusal = true → e = .violation (.tagInUse tag)) := by
  unfold send at h
  split at h
  · cases h
    exact ⟨rfl, by rintro ⟨⟩⟩
  · split at h
    · cases h
      exact ⟨rfl, fun _ => rfl⟩
    · split at h
      · cases h
        exact ⟨rfl, by rintro ⟨⟩⟩
      · dsimp only at h
        split at h
        next hw =>
          cases h
          rw [isRefusal_write hw]
          obtain ⟨stream, rfl, -⟩ := write_error hw
          exact ⟨rfl, by rintro ⟨⟩⟩
        · cases h

structure Missed (c : Connection) (e : Error) (c' : Connection) : Prop where
  outstanding : c'.outstanding = c.outstanding
  pending : c'.pending = none
  refusal : e.isRefusal = true → ∃ tag, e = .violation (.unknownTag tag)
  transcript : ∃ log, c'.transcript = c.transcript ++ log ∧
    ∀ tag ∈ completions log, tag ∉ c.outstanding

theorem missed_of_nextResponse (h : nextResponse limit c = (.error e, c'))
    (hp : c.pending = none) : Missed c e c' := by
  have silent {c₁ : Connection} (h : c₁.transcript = c.transcript) : ∃ log,
      c₁.transcript = c.transcript ++ log ∧ ∀ tag ∈ completions log, tag ∉ c.outstanding :=
    ⟨[], by simpa using h, by simp⟩
  fun_induction nextResponse limit c with
  | case1 c e₁ c₁ hr =>
    cases h
    refine ⟨(receive_books hr).1, (receive_books hr).2.trans hp, ?_, ?_⟩
    · rw [isRefusal_receive hr]
      rintro ⟨⟩
    · obtain ⟨stream, rfl | ⟨rfl, -⟩⟩ := receive_error hr
      · exact silent rfl
      · exact silent rfl
  | case4 c c₁ r hr _ _ =>
    obtain ⟨-, tag, rfl⟩ := settle_error h
    obtain ⟨rfl, _, htag, hknown, -⟩ := settle_stray h
    obtain ⟨stream, rfl⟩ := receive_ok hr
    refine ⟨rfl, hp, fun _ => ⟨tag, rfl⟩, [.response r], rfl, ?_⟩
    intro t ht
    have named : t ∈ r.tag? := by simpa [completions, Entry.completed?] using ht
    rw [htag, Option.mem_some] at named
    exact named ▸ hknown
  | case2 c c₁ _ t hr hw | case3 c c₁ _ t _ hw _ _ _ hr =>
    -- No chunk is asked for where no literal waits.
    rw [(receive_books hr).2, hp] at hw
    cases hw

theorem missed_of_readResponse (h : readResponse limit c = (.error e, c'))
    (hp : c.pending = none) : Missed c e c' := by
  unfold readResponse at h
  split at h
  · cases h
    exact ⟨rfl, hp, by rintro ⟨⟩, [], by simp, by simp⟩
  · exact missed_of_nextResponse h hp

end Connection

namespace Idling

variable {c c' : Connection} {i i' : Idling} {tag : Tag} {early : List Untagged} {e : Error}
  {limit : Duration}

/-! ### Beginning -/

/-- How an IDLE command fails to begin, with `known` outstanding and `log` said: without a word on
any command that is known, or with the completion of one. -/
inductive Unbegun (known : List Tag) (log : List Entry) (e : Error) : Prop where
  | unanswered : (∀ t ∈ known, t ∉ completions log) →
      (e.isRefusal = true → ∃ v, e = .violation v ∧ v ≠ .idleNotEntered) → Unbegun known log e
  | completed {t} : t ∈ known → completions log = [t] → e.isRefusal = true →
      (∀ v, e = .violation v → v = .idleNotEntered) → Unbegun known log e

theorem Unbegun.of_completion {c₁ : Connection} {t : Tag} {status : Status}
    {code : Option (List Token)} {text : String}
    (hr : c.readResponse limit = (.ok (.tagged t status code text), c₁)) (hp : c.pending = none)
    (he : e.isRefusal = true) (hv : ∀ v, e = .violation v → v = .idleNotEntered) :
    ∃ log, c₁.transcript = c.transcript ++ log ∧ Unbegun c.outstanding log e := by
  have heard := Connection.heard_of_readResponse hr
  exact ⟨_, heard.transcript_eq hp, .completed (heard.known t rfl) rfl he hv⟩

theorem enter_failed (h : enter tag early c = (.error e, c')) (hp : c.pending = none) :
    ∃ log, c'.transcript = c.transcript ++ log ∧ Unbegun c.outstanding log e := by
  fun_induction enter tag early c with
  | case1 early c e₁ c₁ hr =>
    have missed := Connection.missed_of_readResponse hr hp
    obtain ⟨log, ht, hlog⟩ := missed.transcript
    cases h
    refine ⟨log, ht, .unanswered (fun t hk hc => hlog t hc hk) fun he => ?_⟩
    obtain ⟨t, rfl⟩ := missed.refusal he
    exact ⟨_, rfl, by simp⟩
  | case2 => cases h
  | case3 early c completed code text c₁ hr =>
    cases h
    exact Unbegun.of_completion hr hp rfl (by simp)
  | case4 early c completed code text c₁ hr =>
    cases h
    exact Unbegun.of_completion hr hp rfl (by simp)
  | case5 early c completed status code text c₁ hr _ _ =>
    cases h
    exact Unbegun.of_completion hr hp rfl (by simp)
  | case6 early c u c₁ hr _ ih =>
    have heard := Connection.heard_of_readResponse hr
    obtain ⟨log, ht, hu⟩ := ih h (heard.pending_eq hp)
    refine ⟨.response (.untagged u) :: log, ?_, ?_⟩
    · rw [ht, heard.transcript_eq hp, List.append_assoc, List.singleton_append]
    · rw [heard.outstanding] at hu
      cases hu with
      | unanswered hn he => exact .unanswered hn he
      | completed hk hc he hv => exact .completed hk hc he hv

theorem start_failed (h : start c = (.error e, c')) :
    ∃ log, c'.transcript = c.transcript ++ log ∧ Unbegun (c.outstanding ++ [c.nextTag.1]) log e ∧
      (log = [] ∨ c.nextTag.1 ∉ c.outstanding) := by
  unfold start at h
  dsimp only at h
  split at h
  next hs =>
    cases h
    obtain ⟨ht, he⟩ := Connection.send_failed hs
    refine ⟨[], by simpa using ht, .unanswered (by simp) fun hr => ?_, .inl rfl⟩
    rw [he hr]
    exact ⟨_, rfl, by simp⟩
  next c₁ hs =>
    have plain := Connection.pending_send_plain hs (by simp [Command.named])
    obtain ⟨-, hfresh, -, stream, pending, -, -, rfl⟩ := Connection.send_ok hs
    obtain ⟨log, ht, hu⟩ := enter_failed h plain
    refine ⟨.command c.nextTag.1 (.named "IDLE") :: log, ?_, ?_, .inr hfresh⟩
    · rw [ht]
      simp [Connection.record]
    · cases hu with
      | unanswered hn he => exact .unanswered hn he
      | completed hk hc he hv => exact .completed hk hc he hv

/-! ### Idling -/

structure Stands (c : Connection) (taken : Option Tag) (i : Idling) : Prop where
  tag : i.tag = c.nextTag.1
  fresh : i.tag ∉ c.outstanding
  pending : i.connection.pending = none
  ended : i.ended = taken.isSome
  known : ∀ t ∈ taken, t ∈ c.outstanding ++ [i.tag]
  outstanding : ∀ t, t ∈ i.connection.outstanding ↔ t ∈ c.outstanding ++ [i.tag] ∧ taken ≠ some t
  transcript : ∃ log, i.connection.transcript = c.transcript ++ log ∧
    ∀ t ∈ c.outstanding ++ [i.tag], t ∈ completions log ↔ taken = some t

theorem stands_start (h : start c = (.ok i, c')) : Stands c none i ∧ i.connection = c' := by
  unfold start at h
  dsimp only at h
  split at h
  · cases h
  next c₁ hs =>
    have plain := Connection.pending_send_plain hs (by simp [Command.named])
    obtain ⟨-, hfresh, -, stream, pending, -, -, rfl⟩ := Connection.send_ok hs
    obtain ⟨hi, -, hpending, houtstanding, us, prompt, -, ht⟩ := enter_begun h plain
    rw [hi]
    refine ⟨⟨rfl, hfresh, hpending, rfl, by simp, ?_, ?_⟩, rfl⟩
    · intro t
      rw [houtstanding]
      simp [Connection.record]
    · refine ⟨.command c.nextTag.1 (.named "IDLE") ::
        (said us ++ [.response (.continuation prompt)]), ?_, ?_⟩
      · rw [ht]
        simp [Connection.record]
      · simp

/-- As long as only completions of other commands are read than those that are known, the command
goes on. -/
theorem Stands.goesOn {c₁ : Connection} {log : List Entry} (h : Stands c none i)
    (hp : c₁.pending = none) (ho : c₁.outstanding = i.connection.outstanding)
    (ht : c₁.transcript = i.connection.transcript ++ log)
    (hlog : ∀ t ∈ completions log, t ∉ i.connection.outstanding) :
    Stands c none { i with connection := c₁ } := by
  obtain ⟨before, hb, hc⟩ := h.transcript
  refine ⟨h.tag, h.fresh, hp, h.ended, h.known, ?_, before ++ log, ?_, ?_⟩
  · intro t
    rw [ho]
    exact h.outstanding t
  · rw [ht, hb, List.append_assoc]
  · intro t hk
    have waits : t ∈ i.connection.outstanding := (h.outstanding t).mpr ⟨hk, by simp⟩
    rw [completions_append, List.mem_append, hc t hk]
    exact or_iff_left fun hm => hlog t hm waits

theorem Stands.taken {c₁ : Connection} {t : Tag} {status : Status} {code : Option (List Token)}
    {text : String} (h : Stands c none i)
    (heard : Connection.Heard i.connection (.tagged t status code text) c₁) :
    Stands c (some t) { i with connection := c₁, ended := true } := by
  obtain ⟨before, hb, hc⟩ := h.transcript
  have known : t ∈ c.outstanding ++ [i.tag] := ((h.outstanding t).mp (heard.known t rfl)).1
  refine ⟨h.tag, h.fresh, heard.pending_eq h.pending, rfl, by simpa using known, ?_,
    before ++ [.response (.tagged t status code text)], ?_, ?_⟩
  · intro t'
    rw [heard.outstanding, Connection.mem_unsettled, h.outstanding]
    simp [Response.tag?]
  · rw [heard.transcript_eq h.pending, hb, List.append_assoc]
  · intro t' hk
    rw [completions_append, List.mem_append, hc t' hk, completions_tagged,
      completions_nil, List.mem_singleton]
    simp [eq_comm]

theorem Stands.poison {taken : Option Tag} (h : Stands c taken i) :
    Stands c taken { i with connection := i.connection.poison } :=
  ⟨h.tag, h.fresh, h.pending, h.ended, h.known, h.outstanding, h.transcript⟩

theorem ofUntagged_ne_ended (u : Untagged) : Event.ofUntagged u ≠ .ended := by
  intro h
  have quiet := isQuiet_ofUntagged u
  rw [h] at quiet
  cases quiet

/-- A wait takes any completion for that of the IDLE command, and only the first one. -/
theorem stands_wait {r : Except Error Event} {taken : Option Tag} (h : Stands c taken i)
    (hw : wait limit i = (r, i')) : ∃ taken', Stands c taken' i' ∧
      (taken.isSome = true → taken' = taken) ∧ (r = .ok .ended → taken'.isSome = true) := by
  unfold wait at hw
  split at hw
  next u rest _ =>
    cases hw
    exact ⟨taken, ⟨h.tag, h.fresh, h.pending, h.ended, h.known, h.outstanding, h.transcript⟩,
      fun _ => rfl, fun hr => absurd (Except.ok.inj hr) (ofUntagged_ne_ended u)⟩
  · split at hw
    next he =>
      cases hw
      exact ⟨taken, h, fun _ => rfl, fun _ => h.ended ▸ he⟩
    next he =>
      obtain rfl : taken = none := by simpa [h.ended] using he
      generalize hr : Connection.readResponse limit i.connection = p at hw
      obtain ⟨result, c₁⟩ := p
      have missed {e : Error} (hr : Connection.readResponse limit i.connection = (.error e, c₁)) :
          Stands c none { i with connection := c₁ } := by
        have missed := Connection.missed_of_readResponse hr h.pending
        obtain ⟨log, ht, hlog⟩ := missed.transcript
        exact h.goesOn missed.pending missed.outstanding ht hlog
      have reported {response : Response} (htag : response.tag? = none)
          (hr : Connection.readResponse limit i.connection = (.ok response, c₁)) :
          Stands c none { i with connection := c₁ } := by
        have heard := Connection.heard_of_readResponse hr
        refine h.goesOn (heard.pending_eq h.pending) ?_ (heard.transcript_eq h.pending) ?_
        · rw [heard.outstanding, Response.unsettled, htag]
        · simp [completions, Entry.completed?, htag]
      dsimp only at hw
      split at hw
      · split at hw <;> cases hw
        · exact ⟨none, missed hr, fun _ => rfl, by rintro ⟨⟩⟩
        · exact ⟨none, missed hr, fun _ => rfl, by rintro ⟨⟩⟩
      · cases hw
        exact ⟨none, missed hr, fun _ => rfl, by rintro ⟨⟩⟩
      next u =>
        split at hw <;> cases hw
        · exact ⟨none, reported rfl hr, fun _ => rfl, by rintro ⟨⟩⟩
        · exact ⟨none, reported rfl hr, fun _ => rfl,
            fun he => absurd (Except.ok.inj he) (ofUntagged_ne_ended u)⟩
      next tag status code text =>
        have closed := h.taken (Connection.heard_of_readResponse hr)
        refine ⟨some tag, ?_, by rintro ⟨⟩, fun _ => rfl⟩
        cases status with
        | ok | no | bad =>
          cases hw
          exact closed
        | bye | preauth =>
          cases hw
          exact closed.poison
      · cases hw
        exact ⟨none, (reported rfl hr).poison, fun _ => rfl, by rintro ⟨⟩⟩

/-! ### The whole command -/

def after (acts : List Act) (i : Idling) : Idling := acts.foldl (fun i act => act.perform i) i

theorem stands_after {taken : Option Tag} (h : Stands c taken i) (acts : List Act) :
    ∃ taken', Stands c taken' (i.after acts) ∧ (taken.isSome = true → taken' = taken) := by
  induction acts generalizing i taken with
  | nil => exact ⟨taken, h, fun _ => rfl⟩
  | cons act rest ih =>
    have first : ∃ taken', Stands c taken' (act.perform i) ∧
        (taken.isSome = true → taken' = taken) := by
      cases act with
      | wait limit =>
        obtain ⟨taken', hs, hkept, -⟩ := stands_wait h (show wait limit i = _ from rfl)
        exact ⟨taken', hs, hkept⟩
      | sleep span =>
        exact ⟨taken, ⟨h.tag, h.fresh, h.pending, h.ended, h.known, h.outstanding, h.transcript⟩,
          fun _ => rfl⟩
    obtain ⟨taken₁, hs, hkept⟩ := first
    obtain ⟨taken₂, hs', hkept'⟩ := ih hs
    refine ⟨taken₂, hs', fun hsome => ?_⟩
    obtain rfl := hkept hsome
    exact hkept' hsome

theorem Stands.completed {t : Tag} (h : Stands c (some t) i) :
    t ∈ completions (i.connection.since c) := by
  obtain ⟨log, ht, hlog⟩ := h.transcript
  rw [Connection.since_eq ht]
  exact (hlog t (h.known t rfl)).mpr rfl

/-- Of the commands that were known, only the one that has been taken is completed. -/
theorem Stands.completed_only {taken : Option Tag} {t : Tag} (h : Stands c taken i)
    (hk : t ∈ c.outstanding) (hc : t ∈ completions (i.connection.since c)) : taken = some t := by
  obtain ⟨log, ht, hlog⟩ := h.transcript
  rw [Connection.since_eq ht] at hc
  exact (hlog t (List.mem_append_left _ hk)).mp hc

/-- If no other command is completed, the completion is the command's own. -/
theorem Stands.own {t : Tag} (h : Stands c (some t) i)
    (hn : ∀ t ∈ c.outstanding, t ∉ completions (i.connection.since c)) : t = i.tag := by
  rcases List.mem_append.mp (h.known t rfl) with hk | hk
  · exact absurd h.completed (hn t hk)
  · exact List.mem_singleton.mp hk

/-- Once a completion has been taken for that of the command, stopping does nothing. -/
theorem done_of_taken {t : Tag} (h : Stands c (some t) i) :
    i.done = (.ok (i.early.map Response.untagged), i.connection) := by
  rw [done, if_pos (by simp [h.ended])]

/-- While the command goes on, stopping takes `DONE` and the command's own completion. -/
theorem done_of_stands {rs : List Response} (h : Stands c none i) (hd : i.done = (.ok rs, c')) :
    i.tag ∉ c'.outstanding ∧ .line "DONE" ∈ c'.since c := by
  unfold done at hd
  dsimp only at hd
  rw [if_neg (by simp [h.ended])] at hd
  split at hd
  · cases hd
  next c₁ hs =>
    obtain ⟨-, stream, rfl⟩ := Connection.sendLine_ok hs
    split at hd
    · cases hd
    next completion c₂ hr =>
      have concluded := Connection.concluded_of_collect (Connection.readUntil_ok hr).2
      obtain ⟨before, hb, -⟩ := h.transcript
      obtain ⟨log, -, ht⟩ := concluded.transcript
      split at hd
      · cases hd
      · cases hd
        refine ⟨fun hm => (concluded.outstanding _ hm).2 rfl, ?_⟩
        have said : c'.transcript = c.transcript ++ (before ++ .line "DONE" :: log) := by
          rw [ht]
          simp [Connection.record, hb]
        rw [Connection.since_eq said]
        simp

theorem after_append {r : Except Error Event} {before rest : List Act}
    (hw : (i.after before).wait limit = (r, i')) :
    i.after (before ++ .wait limit :: rest) = i'.after rest := by
  unfold after at hw ⊢
  rw [List.foldl_append, List.foldl_cons]
  exact congrArg (fun p => p.2.after rest) hw

/-- An IDLE command that `c` begins keeps to its own completion, while the caller does `acts` and
then stops. It is refused, reported as ended, and taken for stopped only if it is over. -/
structure EndsByOwn (c : Connection) (acts : List Act) : Prop where
  refused : ∀ {e c'}, start c = (.error e, c') → e.isRefusal = true →
    c.nextTag.1 ∈ completions (c'.since c)
  ended : ∀ {i c' before limit rest i'}, start c = (.ok i, c') →
    acts = before ++ .wait limit :: rest → (i.after before).wait limit = (.ok .ended, i') →
    c.nextTag.1 ∈ completions (i'.connection.since c)
  stopped : ∀ {i c' rs c''}, start c = (.ok i, c') → (i.after acts).done = (.ok rs, c'') →
    c.nextTag.1 ∉ c''.outstanding ∧ (.line "DONE" ∈ c''.since c ∨
      c.nextTag.1 ∈ completions ((i.after acts).connection.since c))

/-- A command that fails to begin is refused for its own completion exactly if it is for that of
none of the others, and for no other fault of the server. -/
theorem refused_iff (hs : start c = (.error e, c')) :
    (e.isRefusal = true → c.nextTag.1 ∈ completions (c'.since c)) ↔
      (∀ t ∈ c.outstanding, t ∉ completions (c'.since c)) ∧
        ∀ v, e = .violation v → v = .idleNotEntered := by
  obtain ⟨log, ht, hu, hfresh⟩ := start_failed hs
  rw [Connection.since_eq ht]
  cases hu with
  | unanswered hn he =>
    have silent : c.nextTag.1 ∉ completions log := hn _ (by simp)
    constructor
    · intro h
      refine ⟨fun t hk => hn t (List.mem_append_left _ hk), ?_⟩
      rintro v rfl
      exact absurd (h rfl) silent
    · rintro ⟨-, hv⟩ hr
      obtain ⟨v, rfl, hne⟩ := he hr
      exact absurd (hv v rfl) hne
  | @completed t hk hc he hv =>
    have fresh : c.nextTag.1 ∉ c.outstanding := hfresh.resolve_left fun hn => by simp [hn] at hc
    simp only [hc, List.mem_singleton]
    constructor
    · intro h
      refine ⟨?_, hv⟩
      rintro t' hk' rfl
      exact fresh (h he ▸ hk')
    · rintro ⟨hothers, -⟩ -
      rcases List.mem_append.mp hk with hk | hk
      · exact absurd rfl (hothers t hk)
      · exact (List.mem_singleton.mp hk).symm

/-- If none of the others is completed, a wait reports the end of the command for its own
completion. -/
theorem completed_of_ended {before rest : List Act} (hs : start c = (.ok i, c'))
    (hw : (i.after before).wait limit = (.ok .ended, i'))
    (hn : ∀ t ∈ c.outstanding,
      t ∉ completions ((i.after (before ++ .wait limit :: rest)).connection.since c)) :
    c.nextTag.1 ∈ completions (i'.connection.since c) := by
  obtain ⟨taken, waited, -⟩ := stands_after (stands_start hs).1 before
  obtain ⟨taken, ended, -, hsome⟩ := stands_wait waited hw
  obtain ⟨t, rfl⟩ := Option.isSome_iff_exists.mp (hsome rfl)
  obtain ⟨taken, left, hkept⟩ := stands_after ended rest
  obtain rfl := hkept rfl
  rw [after_append hw] at hn
  have own : t = c.nextTag.1 := (left.own hn).trans left.tag
  exact own ▸ ended.completed

/-- If none of the others is completed, stopping leaves nothing of the command behind. -/
theorem stopped_of_done {acts : List Act} {rs : List Response} {c'' : Connection}
    (hs : start c = (.ok i, c')) (hd : (i.after acts).done = (.ok rs, c''))
    (hn : ∀ t ∈ c.outstanding, t ∉ completions ((i.after acts).connection.since c)) :
    c.nextTag.1 ∉ c''.outstanding ∧ (.line "DONE" ∈ c''.since c ∨
      c.nextTag.1 ∈ completions ((i.after acts).connection.since c)) := by
  obtain ⟨taken, stands, -⟩ := stands_after (stands_start hs).1 acts
  rw [← stands.tag]
  cases taken with
  | none =>
    obtain ⟨hout, hline⟩ := done_of_stands stands hd
    exact ⟨hout, .inl hline⟩
  | some t =>
    obtain rfl := stands.own hn
    rw [done_of_taken stands] at hd
    cases hd
    exact ⟨fun hm => ((stands.outstanding _).mp hm).2 rfl, .inr stands.completed⟩

/-- If another command is completed, stopping leaves the IDLE command outstanding. -/
theorem not_completed_of_stopped {acts : List Act} (hs : start c = (.ok i, c'))
    (h : ∀ rs c'', (i.after acts).done = (.ok rs, c'') → c.nextTag.1 ∉ c''.outstanding) :
    ∀ t ∈ c.outstanding, t ∉ completions ((i.after acts).connection.since c) := by
  obtain ⟨taken, stands, -⟩ := stands_after (stands_start hs).1 acts
  intro t hk hc
  obtain rfl := stands.completed_only hk hc
  have settled := h _ _ (done_of_taken stands)
  rw [← stands.tag, stands.outstanding] at settled
  have own : t = (i.after acts).tag := by simpa using settled
  exact stands.fresh (own ▸ hk)

/-- IDLE keeps to its own completion exactly if none of the commands that were outstanding before
is completed while the client idles, and the server says nothing at the beginning that it must
not. -/
theorem endsByOwn_iff (c : Connection) (acts : List Act) : EndsByOwn c acts ↔
    (∀ t ∈ c.outstanding, t ∉ completions ((Operation.perform c (.idle acts false)).since c)) ∧
      ∀ v c', start c = (.error (.violation v), c') → v = .idleNotEntered := by
  rcases hs : start c with ⟨e | i, c'⟩
  · have left : Operation.perform c (.idle acts false) = c' := by simp [Operation.perform, hs]
    rw [left]
    constructor
    · intro h
      obtain ⟨hothers, hv⟩ := (refused_iff hs).mp (h.refused hs)
      refine ⟨hothers, ?_⟩
      rintro v _ ⟨⟩
      exact hv v rfl
    · rintro ⟨hothers, hv⟩
      refine ⟨fun h he => ?_, fun h => ?_, fun h => ?_⟩
      · rw [hs] at h
        cases h
        exact (refused_iff hs).mpr ⟨hothers, fun v hv' => hv v c' (by rw [hv'])⟩ he
      all_goals
        rw [hs] at h
        cases h
  · have left : Operation.perform c (.idle acts false) = (i.after acts).connection := by
      simp [Operation.perform, hs, after]
    rw [left]
    constructor
    · intro h
      refine ⟨not_completed_of_stopped hs fun rs c'' hd => (h.stopped hs hd).1, ?_⟩
      rintro v _ ⟨⟩
    · rintro ⟨hothers, -⟩
      refine ⟨fun h => ?_, fun h hacts hw => ?_, fun h hd => ?_⟩
      · rw [hs] at h
        cases h
      · rw [hs] at h
        cases h
        subst hacts
        exact completed_of_ended hs hw hothers
      · rw [hs] at h
        cases h
        exact stopped_of_done hs hd hothers

/-- A client that idles while its NOOP is under way takes the completion of the NOOP for the end
of IDLE. -/
theorem not_endsByOwn_overlapping :
    let stream := Wire.Stream.start
      [.data (Bytes.ofText "* OK ready\r\n+ idling\r\na1 OK done\r\n")] .unlimited
    let c := Operation.run [.send ⟨"a1"⟩ (.named "NOOP")]
      (Connection.start stream { host := "mail" }).2
    c.outstanding = [⟨"a1"⟩] ∧ ¬EndsByOwn c [.wait 1] := by
  intro stream c
  have waits : c.outstanding = [⟨"a1"⟩] := by decide +kernel
  refine ⟨waits, fun h => ?_⟩
  obtain ⟨hothers, -⟩ := (endsByOwn_iff c [.wait 1]).mp h
  exact hothers ⟨"a1"⟩ (by rw [waits]; simp) (by decide +kernel)

end Idling
end MailClient.Imap
