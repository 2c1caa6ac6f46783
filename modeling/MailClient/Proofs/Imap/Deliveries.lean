import MailClient.Proofs.Imap.IdleCompletion

/-! How the untagged responses of an IDLE command reach the caller. Those from before the request to
continue are queued, and those that come later are read by the waits and by the end of the command.
Each is handed over once and in its order. In the queue BYE is not told from other responses, and
that is all that depends on where a response came. -/
namespace MailClient.Imap

def Response.untagged? : Response → Option Untagged
  | .untagged u => some u
  | _ => none

def Entry.untagged? : Entry → Option Untagged
  | .response r => r.untagged?
  | _ => none

def reports (log : List Entry) : List Untagged := log.filterMap Entry.untagged?

section

variable (log log' : List Entry) (r : Response)

@[simp] theorem reports_nil : reports [] = [] := rfl

@[simp] theorem reports_append : reports (log ++ log') = reports log ++ reports log' :=
  List.filterMap_append

@[simp] theorem reports_response :
    reports (.response r :: log) = r.untagged?.toList ++ reports log := by
  cases r <;> rfl

@[simp] theorem reports_command (tag : Tag) (command : Command) :
    reports (.command tag command :: log) = reports log := rfl

@[simp] theorem reports_line (text : String) : reports (.line text :: log) = reports log := rfl

@[simp] theorem reports_said (us : List Untagged) : reports (Idling.said us) = us := by
  induction us with
  | nil => rfl
  | cons u us ih => exact congrArg (u :: ·) ih

end

namespace Connection

variable {c c' : Connection} {e : Error} {limit : Duration} {tag : Tag}

/-- A read that fails has heard no untagged response, and is not told of BYE. -/
theorem unreported_of_nextResponse (h : nextResponse limit c = (.error e, c'))
    (hp : c.pending = none) : (∃ log, c'.transcript = c.transcript ++ log ∧ reports log = []) ∧
      ∀ text, e ≠ .bye text := by
  fun_induction nextResponse limit c with
  | case1 c e₁ c₁ hr =>
    cases h
    constructor
    · obtain ⟨stream, rfl | ⟨rfl, -⟩⟩ := receive_error hr
      · exact ⟨[], by simp [poison], rfl⟩
      · exact ⟨[], by simp, rfl⟩
    · rintro text rfl
      unfold receive at hr
      dsimp only at hr
      split at hr <;> cases hr
  | case4 c c₁ r hr _ _ =>
    obtain ⟨-, tag, rfl⟩ := settle_error h
    obtain ⟨rfl, _, htag, -⟩ := settle_stray h
    obtain ⟨stream, rfl⟩ := receive_ok hr
    refine ⟨⟨[.response r], rfl, ?_⟩, by simp⟩
    cases r with
    | tagged => rfl
    | _ => cases htag
  | case2 c c₁ _ t hr hw | case3 c c₁ _ t _ hw _ _ _ hr =>
    -- No chunk is asked for where no literal waits.
    rw [(receive_books hr).2, hp] at hw
    cases hw

theorem ne_bye_of_readResponse (h : readResponse limit c = (.error e, c'))
    (hp : c.pending = none) (text : String) : e ≠ .bye text := by
  unfold readResponse at h
  split at h
  · cases h
    simp
  · exact (unreported_of_nextResponse h hp).2 text

/-- A read hears the untagged response that it returns, and no other. -/
theorem reports_readResponse {result : Except Error Response}
    (h : readResponse limit c = (result, c')) (hp : c.pending = none) : c'.pending = none ∧
      ∃ log, c'.transcript = c.transcript ++ log ∧
        reports log = (result.toOption.bind Response.untagged?).toList := by
  cases result with
  | ok r =>
    have heard := heard_of_readResponse h
    exact ⟨heard.pending_eq hp, _, heard.transcript_eq hp, by simp [Except.toOption]⟩
  | error e =>
    refine ⟨(missed_of_readResponse h hp).pending, ?_⟩
    unfold readResponse at h
    split at h
    · cases h
      exact ⟨[], by simp, rfl⟩
    · exact (unreported_of_nextResponse h hp).1

/-- The responses that come before a completion are all handed over with it. -/
theorem reports_of_collect {before : List Response} {completion : Completion}
    (h : collect tag before c = (.ok completion, c')) (hp : c.pending = none) :
    ∃ log, c'.transcript = c.transcript ++ log ∧ completion.responses.filterMap Response.untagged? =
      before.reverse.filterMap Response.untagged? ++ reports log := by
  fun_induction collect tag before c with
  | case1 => cases h
  | case2 => cases h
  | case3 before c status code text c₁ hr =>
    have heard := heard_of_readResponse hr
    cases h
    exact ⟨_, heard.transcript_eq hp, by simp [Response.untagged?]⟩
  | case4 before c completed status code text c₁ hr _ _ ih =>
    have heard := heard_of_readResponse hr
    obtain ⟨log, ht, hlog⟩ := ih h (heard.pending_eq hp)
    rw [heard.transcript_eq hp] at ht
    refine ⟨.response (.tagged completed status code text) :: log, by simpa using ht, ?_⟩
    rw [hlog]
    simp [Response.untagged?]
  | case5 before c u c₁ hr _ ih =>
    have heard := heard_of_readResponse hr
    obtain ⟨log, ht, hlog⟩ := ih h (heard.pending_eq hp)
    rw [heard.transcript_eq hp] at ht
    refine ⟨.response (.untagged u) :: log, by simpa using ht, ?_⟩
    rw [hlog]
    simp [Response.untagged?]

end Connection

namespace Idling

variable {c c' : Connection} {i i' i₁ : Idling} {limit : Duration}
  {rs rs' : List (Except Error Event)} {front front' live live' : List Untagged}

def verdict (u : Untagged) : Except Error Event :=
  if u.status? = some .bye then .error (.bye (u.text.getD "")) else .ok (.ofUntagged u)

def isDelivery : Except Error Event → Bool
  | .ok e => !e.isQuiet
  | .error (.bye _) => true
  | .error _ => false

def results : List Act → Idling → List (Except Error Event)
  | [], _ => []
  | .wait limit :: acts, i => (i.wait limit).1 :: results acts (i.wait limit).2
  | .sleep span :: acts, i => results acts ((Act.sleep span).perform i)

def deliveries (acts : List Act) (i : Idling) : List (Except Error Event) :=
  (results acts i).filter isDelivery

theorem isDelivery_verdict (u : Untagged) : isDelivery (verdict u) = true := by
  unfold verdict
  split
  · rfl
  · simp [isDelivery, isQuiet_ofUntagged]

/-! ### Waiting -/

structure Handed (i : Idling) (rs : List (Except Error Event)) (front live : List Untagged)
    (i' : Idling) : Prop where
  queue : i.early = front ++ i'.early
  /-- Nothing is read as long as there is something in the queue. -/
  later : live = [] ∨ i'.early = []
  deliveries : rs.filter isDelivery = front.map (.ok ∘ .ofUntagged) ++ live.map verdict
  heard : ∃ log, i'.connection.transcript = i.connection.transcript ++ log ∧ reports log = live
  pending : i'.connection.pending = none

theorem Handed.refl (hp : i.connection.pending = none) : Handed i [] [] [] i :=
  ⟨rfl, .inl rfl, rfl, ⟨[], by simp, rfl⟩, hp⟩

theorem Handed.trans (h : Handed i rs front live i₁) (h' : Handed i₁ rs' front' live' i') :
    Handed i (rs ++ rs') (front ++ front') (live ++ live') i' := by
  obtain ⟨log, ht, hlog⟩ := h.heard
  obtain ⟨log', ht', hlog'⟩ := h'.heard
  have queue := h'.queue
  refine ⟨?_, ?_, ?_, ⟨log ++ log', ?_, ?_⟩, h'.pending⟩
  · rw [h.queue, queue, List.append_assoc]
  · rcases h.later with rfl | he
    · exact h'.later
    · rw [he, eq_comm, List.append_eq_nil_iff] at queue
      exact .inr queue.2
  · rw [List.filter_append, h.deliveries, h'.deliveries, List.map_append, List.map_append]
    rcases h.later with rfl | he
    · simp
    · rw [he, eq_comm, List.append_eq_nil_iff] at queue
      simp [queue.1]
  · rw [ht', ht, List.append_assoc]
  · rw [reports_append, hlog, hlog']

/-- A wait that brings no response leaves the queue alone. -/
theorem Handed.silent {r : Except Error Event} (hr : isDelivery r = false)
    (he : i'.early = i.early)
    (heard : ∃ log, i'.connection.transcript = i.connection.transcript ++ log ∧ reports log = [])
    (hp : i'.connection.pending = none) : Handed i [r] [] [] i' :=
  ⟨he.symm, .inl rfl, by simp [hr], heard, hp⟩

theorem handed_wait {r : Except Error Event} (h : i.wait limit = (r, i'))
    (hp : i.connection.pending = none) : ∃ front live, Handed i [r] front live i' := by
  unfold wait at h
  split at h
  next u rest he =>
    cases h
    exact ⟨[u], [], he, .inl rfl, by simp [isDelivery, isQuiet_ofUntagged], ⟨[], by simp, rfl⟩, hp⟩
  next he =>
    split at h
    · cases h
      exact ⟨[], [], .silent rfl rfl ⟨[], by simp, rfl⟩ hp⟩
    · generalize hr : Connection.readResponse limit i.connection = p at h
      obtain ⟨result, c₁⟩ := p
      obtain ⟨pending, log, ht, hlog⟩ := Connection.reports_readResponse hr hp
      dsimp only at h
      split at h
      · split at h
        · cases h
          exact ⟨[], [], .silent rfl rfl ⟨log, ht, hlog⟩ pending⟩
        · cases h
          exact ⟨[], [], .silent rfl rfl ⟨log, ht, hlog⟩ pending⟩
      next e _ =>
        cases h
        refine ⟨[], [], .silent ?_ rfl ⟨log, ht, hlog⟩ pending⟩
        cases e with
        | bye text => exact absurd rfl (Connection.ne_bye_of_readResponse hr hp text)
        | _ => rfl
      next u =>
        have told : Handed i [verdict u] [] [u] { i with connection := c₁ } :=
          ⟨rfl, .inr he, by simp [isDelivery_verdict], ⟨log, ht, hlog⟩, pending⟩
        refine ⟨[], [u], ?_⟩
        unfold verdict at told
        split at h
        next hb =>
          cases h
          rwa [if_pos hb] at told
        next hb =>
          cases h
          rwa [if_neg hb] at told
      next tag status code text =>
        refine ⟨[], [], ?_⟩
        cases status with
        | ok | no | bad | bye | preauth =>
          cases h
          exact .silent rfl rfl ⟨log, ht, hlog⟩ pending
      · cases h
        exact ⟨[], [], .silent rfl rfl ⟨log, ht, hlog⟩ pending⟩

theorem handed_results (hp : i.connection.pending = none) (acts : List Act) :
    ∃ front live, Handed i (results acts i) front live (i.after acts) := by
  induction acts generalizing i with
  | nil => exact ⟨[], [], .refl hp⟩
  | cons act acts ih =>
    cases act with
    | wait limit =>
      obtain ⟨front, live, handed⟩ := handed_wait (show i.wait limit = _ from rfl) hp
      obtain ⟨front', live', rest⟩ := ih handed.pending
      exact ⟨_, _, handed.trans rest⟩
    | sleep span =>
      obtain ⟨front, live, rest⟩ := ih (i := (Act.sleep span).perform i) hp
      exact ⟨front, live, rest.queue, rest.later, rest.deliveries, rest.heard, rest.pending⟩

/-! ### The whole command -/

/-- What is queued at first is what has been heard before the request to continue. -/
theorem reports_start (h : start c = (.ok i, c')) : i.connection.pending = none ∧
    ∃ log, i.connection.transcript = c.transcript ++ log ∧ reports log = i.early := by
  unfold start at h
  dsimp only at h
  split at h
  · cases h
  next c₁ hs =>
    have plain := Connection.pending_send_plain hs (by simp [Command.named])
    obtain ⟨-, -, -, stream, pending, -, -, rfl⟩ := Connection.send_ok hs
    obtain ⟨hi, -, hpending, -, us, prompt, hearly, ht⟩ := enter_begun h plain
    rw [hi]
    refine ⟨hpending, .command c.nextTag.1 (.named "IDLE") ::
      (said us ++ [.response (.continuation prompt)]), ?_, ?_⟩
    · rw [ht]
      simp [Connection.record]
    · simp [hearly, Response.untagged?]

theorem reports_done {responses : List Response} (h : i.done = (.ok responses, c'))
    (hp : i.connection.pending = none) :
    ∃ log, c'.transcript = i.connection.transcript ++ log ∧
      responses.filterMap Response.untagged? = i.early ++ reports log := by
  have queued : (i.early.map Response.untagged).filterMap Response.untagged? = i.early := by
    rw [List.filterMap_map]
    exact List.filterMap_some
  unfold done at h
  dsimp only at h
  split at h
  · cases h
    exact ⟨[], by simp, by simp [queued]⟩
  · split at h
    · cases h
    next c₁ hs =>
      obtain ⟨-, stream, rfl⟩ := Connection.sendLine_ok hs
      split at h
      · cases h
      next completion c₂ hr =>
        obtain ⟨log, ht, hlog⟩ := Connection.reports_of_collect (Connection.readUntil_ok hr).2 hp
        split at h
        · cases h
        · cases h
          refine ⟨.line "DONE" :: log, by simpa [Connection.record] using ht, ?_⟩
          rw [List.filterMap_append, queued, hlog]
          simp

/-- What becomes of the untagged responses of an IDLE command that `c` has begun, if the caller does
`acts` and then stops. The waits hand over `front` from the queue and `live` as it comes. -/
structure Delivers (c : Connection) (i : Idling) (acts : List Act) (front live : List Untagged) :
    Prop where
  /-- The queue holds those from before the request to continue. -/
  queue : reports (i.connection.since c) = i.early
  queued : front <+: i.early
  later : live = [] ∨ front = i.early
  waits : deliveries acts i = front.map (.ok ∘ .ofUntagged) ++ live.map verdict
  first : front ++ live <+: reports ((i.after acts).connection.since c)
  /-- Stopping hands over the others. -/
  rest : ∀ {responses c'}, (i.after acts).done = (.ok responses, c') →
    reports (c'.since c) = front ++ live ++ responses.filterMap Response.untagged?

theorem delivers_of_start (hs : start c = (.ok i, c')) (acts : List Act) :
    ∃ front live, Delivers c i acts front live := by
  obtain ⟨hp, log, ht, hlog⟩ := reports_start hs
  obtain ⟨front, live, handed⟩ := handed_results hp acts
  obtain ⟨log', ht', hlog'⟩ := handed.heard
  rw [ht, List.append_assoc] at ht'
  have heard : reports (log ++ log') = front ++ live ++ (i.after acts).early := by
    rw [reports_append, hlog, hlog', handed.queue]
    rcases handed.later with rfl | he
    · simp
    · simp [he]
  refine ⟨front, live, ?_, ?_, ?_, handed.deliveries, ?_, ?_⟩
  · rw [Connection.since_eq ht, hlog]
  · rw [handed.queue]
    exact List.prefix_append _ _
  · refine handed.later.imp_right fun he => ?_
    rw [handed.queue, he, List.append_nil]
  · rw [Connection.since_eq ht', heard]
    exact List.prefix_append _ _
  · intro responses c'' hd
    obtain ⟨log'', ht'', hlog''⟩ := reports_done hd handed.pending
    rw [ht', List.append_assoc] at ht''
    rw [Connection.since_eq ht'', reports_append, heard, hlog'', List.append_assoc]

theorem ok_eq_verdict_iff (u : Untagged) :
    .ok (.ofUntagged u) = verdict u ↔ u.status? ≠ some .bye := by
  unfold verdict
  split
  next hb => simp [hb]
  next hb => simp [hb]

/-- The untagged responses of an IDLE command are handed over once and in their order, by the waits
and then by stopping. The waits make the same of a response wherever it came, exactly if none that
they take from the queue is BYE. -/
theorem delivers_alike_iff (hs : start c = (.ok i, c')) (acts : List Act) :
    ∃ front live, Delivers c i acts front live ∧
      (deliveries acts i = (front ++ live).map verdict ↔
        ∀ u ∈ front, u.status? ≠ some .bye) := by
  obtain ⟨front, live, delivers⟩ := delivers_of_start hs acts
  refine ⟨front, live, delivers, ?_⟩
  rw [delivers.waits, List.map_append, List.append_cancel_right_eq, List.map_inj_left]
  exact forall_congr' fun u => imp_congr_right fun _ => ok_eq_verdict_iff u

/-- BYE from before the request to continue is handed over as an event, and BYE from after it as an
error. -/
theorem not_delivers_alike_farewell :
    let stream := Wire.Stream.start [.data (Bytes.ofText
      "* OK ready\r\n* 7 EXPUNGE\r\n* BYE soon\r\n+ idling\r\n* BYE now\r\n")] .unlimited
    let c := (Connection.start stream { host := "mail" }).2
    let acts := [.wait 1, .wait 1, .wait 1]
    ∃ i c', start c = (.ok i, c') ∧ ∃ front live, Delivers c i acts front live ∧
      deliveries acts i ≠ (front ++ live).map verdict := by
  intro stream c acts
  have queued : (start c).1.toOption.map (fun i => i.early.map Untagged.status?) =
      some [none, some .bye] := by decide +kernel
  have handed : (start c).1.toOption.map (fun i => (deliveries acts i).length) = some 3 := by
    decide +kernel
  rcases hs : start c with ⟨e | i, c'⟩
  · rw [hs] at queued
    cases queued
  · rw [hs] at queued handed
    have queued : i.early.map Untagged.status? = [none, some .bye] := Option.some.inj queued
    have handed : (deliveries acts i).length = 3 := Option.some.inj handed
    obtain ⟨front, live, delivers, alike⟩ := delivers_alike_iff hs acts
    refine ⟨i, c', rfl, front, live, delivers, fun h => ?_⟩
    have size : i.early.length = 2 := by simpa using congrArg List.length queued
    have whole : front = i.early := by
      refine delivers.later.resolve_left ?_
      rintro rfl
      have short := delivers.queued.length_le
      rw [delivers.waits, List.length_append, List.length_map, List.length_map] at handed
      simp at handed
      omega
    have bye : some Status.bye ∈ i.early.map Untagged.status? := by simp [queued]
    obtain ⟨u, hu, hb⟩ := List.mem_map.mp bye
    exact alike.mp h u (whole ▸ hu) hb

end Idling
end MailClient.Imap
