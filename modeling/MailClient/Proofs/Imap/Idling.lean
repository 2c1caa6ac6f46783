import MailClient.Imap.Idle
import MailClient.Proofs.Imap.Steps

/-! What is said in the course of an IDLE command, from its beginning to its completion. -/
namespace MailClient.Imap.Idling

variable {c c' : Connection} {i i' : Idling} {tag : Tag} {limit : Duration} {e : Event}

def said (us : List Untagged) : List Entry := us.map fun u => .response (.untagged u)

@[simp] theorem said_nil : said [] = [] := rfl

@[simp] theorem said_cons (u : Untagged) (us : List Untagged) :
    said (u :: us) = .response (.untagged u) :: said us := rfl

@[simp] theorem said_append (us vs : List Untagged) : said (us ++ vs) = said us ++ said vs :=
  List.map_append

structure Alone (i : Idling) : Prop where
  usable : i.connection.usable = true
  pending : i.connection.pending = none
  outstanding : i.connection.outstanding = if i.ended then [] else [i.tag]

/-! ### Beginning -/

/-- An IDLE command has begun when the server asks the client to go on. Until then there are only
untagged responses, which are queued. -/
theorem enter_begun {early : List Untagged} (h : enter tag early c = (.ok i, c'))
    (hp : c.pending = none) : i = ⟨c', tag, i.early, false⟩ ∧ c'.usable = true ∧
      c'.pending = none ∧ c'.outstanding = c.outstanding ∧ ∃ us prompt,
        i.early = early.reverse ++ us ∧ c'.transcript =
          c.transcript ++ said us ++ [.response (.continuation prompt)] := by
  fun_induction enter tag early c with
  | case2 early c prompt c₁ hr =>
    have heard := Connection.heard_of_readResponse hr
    cases h
    refine ⟨rfl, heard.usable, heard.pending_eq hp, heard.outstanding, [], prompt, by simp, ?_⟩
    simp [heard.transcript_eq hp]
  | case6 early c u c₁ hr _ ih =>
    have heard := Connection.heard_of_readResponse hr
    obtain ⟨hi, usable, pending, outstanding, us, prompt, hearly, ht⟩ := ih h (heard.pending_eq hp)
    refine ⟨hi, usable, pending, outstanding.trans heard.outstanding, u :: us, prompt,
      by simpa using hearly, ?_⟩
    rw [ht, heard.transcript_eq hp]
    simp
  | _ => cases h

theorem enter_ok {early : List Untagged} (h : enter tag early c = (.ok i, c'))
    (hp : c.pending = none) (ho : c.outstanding = [tag]) :
    Alone i ∧ i.tag = tag ∧ i.ended = false ∧ ∃ us prompt, i.early = early.reverse ++ us ∧
      i.connection.transcript = c.transcript ++ said us ++ [.response (.continuation prompt)] := by
  obtain ⟨hi, usable, pending, outstanding, us, prompt, hearly, ht⟩ := enter_begun h hp
  rw [hi]
  exact ⟨⟨usable, pending, outstanding.trans ho⟩, rfl, rfl, us, prompt, hearly, ht⟩

theorem start_ok (h : start c = (.ok i, c')) (hc : c.outstanding = []) :
    Alone i ∧ i.ended = false ∧ ∃ prompt, i.connection.transcript = c.transcript ++
      .command i.tag (.named "IDLE") :: said i.early ++ [.response (.continuation prompt)] := by
  unfold start at h
  dsimp only at h
  split at h
  · cases h
  next c₁ hs =>
    obtain ⟨-, -, -, stream, pending, -, hpending, rfl⟩ := Connection.send_ok hs
    obtain ⟨alone, htag, hended, us, prompt, hearly, ht⟩ := enter_ok h (hpending rfl) (by
      simp [Connection.record, hc])
    refine ⟨alone, hended, prompt, ?_⟩
    rw [ht, htag, hearly]
    simp [Connection.record]

/-! ### Waiting -/

theorem isQuiet_ofUntagged (u : Untagged) : (Event.ofUntagged u).isQuiet = false := by
  unfold Event.ofUntagged
  split <;> rfl

inductive Waited (i : Idling) : Event → Idling → Prop where
  | early {u rest} : i.early = u :: rest → Waited i (.ofUntagged u) { i with early := rest }
  | finished : i.early = [] → i.ended = true → Waited i .ended i
  | silence {connection} : i.early = [] → i.ended = false →
      Connection.Unheard i.connection connection →
      Waited i .timeout { i with connection := connection }
  | report {connection u} : i.early = [] → i.ended = false →
      Connection.Heard i.connection (.untagged u) connection →
      Waited i (.ofUntagged u) { i with connection := connection }
  | completed {connection tag code text} : i.early = [] → i.ended = false →
      Connection.Heard i.connection (.tagged tag .ok code text) connection →
      Waited i .ended { i with connection := connection, ended := true }

theorem wait_ok (h : wait limit i = (.ok e, i')) : Waited i e i' := by
  unfold wait at h
  split at h
  next u rest he =>
    cases h
    exact .early he
  next he =>
    split at h
    next hended =>
      cases h
      exact .finished he hended
    next hended =>
      rw [Bool.not_eq_true] at hended
      generalize hr : Connection.readResponse limit i.connection = p at h
      obtain ⟨r, c⟩ := p
      dsimp only at h
      split at h
      · split at h
        next hu =>
          cases h
          exact .silence he hended (Connection.unheard_of_readResponse hr hu).1
        · cases h
      · cases h
      · split at h
        · cases h
        · cases h
          exact .report he hended (Connection.heard_of_readResponse hr)
      next tag status code text =>
        have heard := Connection.heard_of_readResponse hr
        cases status with
        | ok =>
          cases h
          exact .completed he hended heard
        | _ => cases h
      · cases h

theorem Alone.tag_eq {status : Status} {code : Option (List Token)} {text : String} (hi : Alone i)
    (he : i.ended = false)
    (heard : Connection.Heard i.connection (.tagged tag status code text) c) : tag = i.tag := by
  have known := heard.known tag rfl
  rw [hi.outstanding, he] at known
  simpa using known

theorem Waited.alone (h : Waited i e i') (hi : Alone i) : Alone i' ∧ i'.tag = i.tag := by
  have ho := hi.outstanding
  cases h with
  | early => exact ⟨⟨hi.usable, hi.pending, ho⟩, rfl⟩
  | finished => exact ⟨hi, rfl⟩
  | silence _ hended unheard =>
    exact ⟨⟨unheard.usable, unheard.pending_eq hi.pending, unheard.outstanding.trans ho⟩, rfl⟩
  | report _ hended heard =>
    exact ⟨⟨heard.usable, heard.pending_eq hi.pending, heard.outstanding.trans ho⟩, rfl⟩
  | @completed connection tag code text _ hended heard =>
    obtain rfl := hi.tag_eq hended heard
    rw [hended] at ho
    refine ⟨⟨heard.usable, heard.pending_eq hi.pending, ?_⟩, rfl⟩
    rw [heard.outstanding, ho]
    simp [Response.unsettled, Response.tag?]

/-! ### Stopping -/

/-- Where nothing else is outstanding, only untagged responses come before a completion. -/
theorem collect_alone {before : List Response} {completion : Completion}
    (h : Connection.collect tag before c = (.ok completion, c')) (hp : c.pending = none)
    (ho : c.outstanding = [tag]) : Connection.Calm c' ∧ c'.usable = true ∧ ∃ us,
      c'.transcript = c.transcript ++ said us ++
        [.response (.tagged tag completion.status completion.code completion.text)] := by
  fun_induction Connection.collect tag before c with
  | case1 => cases h
  | case2 => cases h
  | case3 before c status code text c₁ hr =>
    have heard := Connection.heard_of_readResponse hr
    cases h
    refine ⟨⟨?_, heard.pending_eq hp⟩, heard.usable, [], by simp [heard.transcript_eq hp]⟩
    rw [heard.outstanding, ho]
    simp [Response.unsettled, Response.tag?]
  | case4 before c completed status code text c₁ hr hne _ _ =>
    have known := (Connection.heard_of_readResponse hr).known completed rfl
    rw [ho, List.mem_singleton] at known
    exact absurd known hne
  | case5 before c u c₁ hr _ ih =>
    have heard := Connection.heard_of_readResponse hr
    obtain ⟨calm, hu, us, ht⟩ := ih h (heard.pending_eq hp) (heard.outstanding.trans ho)
    exact ⟨calm, hu, u :: us, by rw [ht, heard.transcript_eq hp]; simp⟩

theorem status_of_error?_eq_none {completion : Completion} (h : completion.error? = none) :
    completion.status = .ok := by
  unfold Completion.error? at h
  split at h
  next hs => exact hs
  all_goals cases h

/-- What goes between the client and the server from `DONE` on, unless the server has ended the
command before. -/
theorem done_ok {rs : List Response} (h : i.done = (.ok rs, c)) (hi : Alone i) :
    Connection.Calm c ∧
      if i.ended then c = i.connection
      else ∃ us code text, c.transcript = i.connection.transcript ++
        .line "DONE" :: said us ++ [.response (.tagged i.tag .ok code text)] := by
  have ho := hi.outstanding
  unfold done at h
  dsimp only at h
  split at h
  next hended =>
    cases h
    rw [if_pos hended] at ho ⊢
    exact ⟨⟨ho, hi.pending⟩, rfl⟩
  next hended =>
    rw [if_neg hended] at ho ⊢
    split at h
    · cases h
    next c₁ hs =>
      obtain ⟨-, stream, rfl⟩ := Connection.sendLine_ok hs
      split at h
      · cases h
      next completion c₂ hr =>
        obtain ⟨-, hcollect⟩ := Connection.readUntil_ok hr
        obtain ⟨calm, -, us, ht⟩ := collect_alone hcollect hi.pending ho
        split at h
        · cases h
        next hok =>
          cases h
          rw [status_of_error?_eq_none hok] at ht
          exact ⟨calm, us, completion.code, completion.text, by rw [ht]; simp [Connection.record]⟩

end MailClient.Imap.Idling
