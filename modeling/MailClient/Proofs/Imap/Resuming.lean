import MailClient.Proofs.Imap.Timeouts

/-! A command whose completion is waited for again after the time was up. The wait that fails has
read responses, and what it has read is lost to the caller. -/
namespace MailClient.Imap.Connection

open Wire (Inbox)

def Late {α : Type} (result : Except Error α) : Prop := ∃ limit, result = .error (.timeout limit)

def timeless (c : Connection) : Connection := { c with stream := c.stream.timeless, ioLimit := 0 }

def within (limit : Duration) (c : Connection) : Connection := { c with ioLimit := limit }

@[simp] theorem timeless_within (limit : Duration) (c : Connection) :
    (c.within limit).timeless = c.timeless := rfl

/-- The longest time that a reader may have to wait for what is to come. -/
def waits (c : Connection) : Duration := Wire.Arrival.waits c.stream.inbox.feed

variable {c c' c₁ : Connection} {r : Response} {e : Error} {limit : Duration} {tag : Tag}
  {t : Transfer} {before : List Response}

theorem not_late_ok {α : Type} (a : α) : ¬ Late (.ok a) := by
  rintro ⟨limit, h⟩
  cases h

/-! ### Without waiting -/

theorem receive_timeless {result : Except Error Response} (h : receive limit c = (result, c'))
    (hl : ¬ Late result) (limit' : Duration) :
    receive limit' c.timeless = (result, c'.timeless) := by
  unfold receive at h ⊢
  dsimp only at h ⊢
  have read (found : Inbox.expired (c.stream.read (Parse.framing c.parse) limit).1 = false) :=
    Wire.Stream.read_timeless found limit'
  cases hr : (c.stream.read (Parse.framing c.parse) limit).1 with
  | expired s =>
    simp only [hr] at h
    cases h
    exact absurd ⟨limit, rfl⟩ hl
  | item r =>
    have read := read (by rw [hr]; rfl)
    simp only [hr] at h
    cases h
    simp [timeless, read, hr, record]
  | failed reason s =>
    have read := read (by rw [hr]; rfl)
    simp only [hr] at h
    cases h
    simp [timeless, read, hr, poison]
  | broken f =>
    have read := read (by rw [hr]; rfl)
    cases f with
    | closed =>
      simp only [hr] at h
      cases h
      simp [timeless, read, hr, poison]
    | malformed position why =>
      simp only [hr] at h
      cases h
      simp [timeless, read, hr, poison]

theorem sendChunk_timeless {result : Except Error Unit} (h : sendChunk t c = (result, c'))
    (hl : ¬ Late result) : sendChunk t c.timeless = (result, c'.timeless) := by
  unfold sendChunk write at h ⊢
  dsimp only at h ⊢
  have written (h : (c.stream.write t.next c.ioLimit).1 ≠ .stalled) :=
    Wire.Stream.write_timeless h 0
  cases hw : (c.stream.write t.next c.ioLimit).1 with
  | stalled =>
    simp only [hw] at h
    cases h
    exact absurd ⟨_, rfl⟩ hl
  | all =>
    have written := written (by simp [hw])
    simp only [hw] at h
    cases h
    simp [timeless, written, hw, record]
  | fault f =>
    have written := written (by simp [hw])
    simp only [hw] at h
    cases h
    simp [timeless, written, hw, poison]

theorem settle_timeless {result : Except Error Response} (h : settle r c = (result, c')) :
    settle r c.timeless = (result, c'.timeless) := by
  have observed (c : Connection) : c.timeless.observe r = (c.observe r).timeless := by
    unfold observe
    split
    · rfl
    · rfl
  cases r with
  | tagged tag status code text =>
    simp only [settle] at h ⊢
    split at h
    next ht =>
      cases h
      exact if_pos ht
    next ht =>
      cases h
      rw [← observed]
      exact if_neg ht
  | untagged u =>
    cases h
    simp only [settle, observed]
  | continuation text =>
    cases h
    simp only [settle, observed]

/-- A read that runs out of time and does no harm is forgotten. -/
theorem timeless_receive (hu : c'.usable = true) (h : receive limit c = (.error e, c')) :
    c'.timeless = c.timeless := by
  rcases failed_receive h with ⟨lost, -⟩ | ⟨stream, taken, -, -, -, ⟨-, same, rfl⟩ | ⟨-, rfl⟩⟩
  · rw [hu] at lost
    cases lost
  · simp only [timeless, same]
  · cases hu

/-! ### Whole reads -/

theorem nextResponse_of_error (h : receive limit c = (.error e, c')) :
    nextResponse limit c = (.error e, c') := by
  rw [nextResponse]
  split
  next hr =>
    rw [hr] at h
    exact h
  next hr =>
    rw [hr] at h
    cases h

theorem nextResponse_of_request {text : String}
    (hr : receive limit c = (.ok (.continuation text), c₁)) (hp : c₁.pending = some t) :
    nextResponse limit c = match sendChunk t c₁ with
      | (.error e, c) => (.error e, c)
      | (.ok (), c) => nextResponse limit c := by
  rw [nextResponse]
  split
  next hr' =>
    rw [hr'] at hr
    cases hr
  next r c₂ hr' =>
    rw [hr'] at hr
    cases hr
    split
    next _ _ hp' _ =>
      rw [hp'] at hp
      cases hp
      split
      next hs => simp only [hs]
      next hs => simp only [hs]
    next other => exact (other _ _ hr' rfl hp HEq.rfl).elim

theorem nextResponse_of_other (hr : receive limit c = (.ok r, c₁))
    (hn : ∀ text t, r = .continuation text → c₁.pending ≠ some t) :
    nextResponse limit c = settle r c₁ := by
  rw [nextResponse]
  split
  next hr' =>
    rw [hr'] at hr
    cases hr
  next r' c₂ hr' =>
    rw [hr'] at hr
    cases hr
    split
    next text t _ hp => exact absurd hp (hn text t rfl)
    · rfl

theorem nextResponse_timeless {result : Except Error Response}
    (h : nextResponse limit c = (result, c')) (hl : ¬ Late result) (limit' : Duration) :
    nextResponse limit' c.timeless = (result, c'.timeless) := by
  fun_induction nextResponse limit c with
  | case1 c e c₁ hr =>
    cases h
    exact nextResponse_of_error (receive_timeless hr hl limit')
  | case2 c c₁ text t hr hp e c₂ hs =>
    cases h
    rw [nextResponse_of_request (receive_timeless hr (not_late_ok _) limit') hp]
    have hl : ¬ Late (.error e : Except Error Unit) := by
      rintro ⟨limit, ⟨⟩⟩
      exact hl ⟨limit, rfl⟩
    rw [sendChunk_timeless hs hl]
  | case3 c c₁ text t hr hp c₂ hs _ _ ih =>
    rw [nextResponse_of_request (receive_timeless hr (not_late_ok _) limit') hp,
      sendChunk_timeless hs (not_late_ok _)]
    exact ih h
  | case4 c c₁ r₁ hr hn _ =>
    have other : ∀ text t, r₁ = .continuation text → c₁.timeless.pending ≠ some t := by
      intro text t he hp
      subst he
      exact hn text t hr rfl hp HEq.rfl
    rw [nextResponse_of_other (receive_timeless hr (not_late_ok _) limit') other]
    exact settle_timeless h

theorem timeless_nextResponse (hu : c'.usable = true) (h : nextResponse limit c = (.error e, c'))
    (limit' : Duration) : nextResponse limit' c.timeless = nextResponse limit' c'.timeless := by
  fun_induction nextResponse limit c with
  | case1 c e c₁ hr =>
    cases h
    rw [timeless_receive hu hr]
  | case2 c c₁ text t hr hp e c₂ hs =>
    cases h
    obtain ⟨stream, rfl, -⟩ := write_error hs
    cases hu
  | case3 c c₁ text t hr hp c₂ hs _ _ ih =>
    rw [nextResponse_of_request (receive_timeless hr (not_late_ok _) limit') hp,
      sendChunk_timeless hs (not_late_ok _)]
    exact ih h
  | case4 c c₁ r₁ hr hn _ =>
    obtain ⟨rfl, -⟩ := settle_error h
    cases hu

/-! ### Whole commands -/

theorem collect_eq (tag : Tag) (before : List Response) (c : Connection) :
    collect tag before c = match readResponse c.ioLimit c with
      | (.error e, c') => (.error e, c')
      | (.ok (.continuation text), c') => c'.violate (.unexpectedContinuation text)
      | (.ok (.tagged completed status code text), c') =>
        if completed = tag then (.ok ⟨tag, status, code, text, before.reverse⟩, c')
        else collect tag (.tagged completed status code text :: before) c'
      | (.ok (.untagged u), c') => collect tag (.untagged u :: before) c' := by
  rw [collect]
  split
  all_goals
    next hr => simp only [hr]

theorem readResponse_timeless {result : Except Error Response}
    (h : readResponse limit c = (result, c')) (hl : ¬ Late result) (limit' : Duration) :
    readResponse limit' c.timeless = (result, c'.timeless) := by
  unfold readResponse at h ⊢
  split at h
  next hu =>
    cases h
    exact if_pos hu
  next hu => exact (if_neg hu).trans (nextResponse_timeless h hl limit')

theorem timeless_readResponse (hu : c'.usable = true) (h : readResponse limit c = (.error e, c'))
    (limit' : Duration) : readResponse limit' c.timeless = readResponse limit' c'.timeless := by
  unfold readResponse at h
  split at h
  · cases h
    rfl
  next hc =>
    have hc : c.usable = true := by simpa using hc
    rw [readResponse_of_usable (show c.timeless.usable = true from hc),
      readResponse_of_usable (show c'.timeless.usable = true from hu)]
    exact timeless_nextResponse hu h limit'

theorem collect_timeless {result : Except Error Completion}
    (h : collect tag before c = (result, c')) (hl : ¬ Late result) :
    collect tag before c.timeless = (result, c'.timeless) := by
  rw [collect_eq]
  fun_induction collect tag before c with
  | case1 before c e c₁ hr =>
    cases h
    have hl : ¬ Late (.error e : Except Error Response) := by
      rintro ⟨limit, ⟨⟩⟩
      exact hl ⟨limit, rfl⟩
    rw [readResponse_timeless hr hl]
  | case2 before c text c₁ hr =>
    cases h
    rw [readResponse_timeless hr (not_late_ok _)]
    rfl
  | case3 before c status code text c₁ hr =>
    cases h
    rw [readResponse_timeless hr (not_late_ok _)]
    exact if_pos rfl
  | case4 before c completed status code text c₁ hr hne _ ih =>
    rw [readResponse_timeless hr (not_late_ok _)]
    dsimp only
    rw [if_neg hne, collect_eq]
    exact ih h
  | case5 before c u c₁ hr _ ih =>
    rw [readResponse_timeless hr (not_late_ok _)]
    dsimp only
    rw [collect_eq]
    exact ih h

/-- A wait for a completion that runs out of time has read responses, and may be taken up again
after them. -/
theorem timeless_collect (hu : c'.usable = true) (h : collect tag before c = (.error e, c')) :
    ∃ turns, Hears c turns c' ∧ ∀ others, collect tag others c.timeless =
      collect tag ((turns.filterMap Turn.returned?).reverse ++ others) c'.timeless := by
  fun_induction collect tag before c with
  | case1 before c e c₁ hr =>
    cases h
    have same : readResponse c.timeless.ioLimit c.timeless =
        readResponse c'.timeless.ioLimit c'.timeless := timeless_readResponse hu hr 0
    have usable : c.usable = true := by
      cases hc : c.usable with
      | true => rfl
      | false =>
        rw [readResponse, if_pos (by simp [hc])] at hr
        cases hr
        exact hc.symm.trans hu
    rw [readResponse_of_usable usable] at hr
    obtain ⟨answers, c₂, silent, hears, stops⟩ := stops_of_nextResponse usable hr
    refine ⟨answers ++ [], hears.trans (stops.harmless hu), fun others => ?_⟩
    rw [List.append_nil, returned_eq_nil silent, collect_eq, collect_eq _ _ c'.timeless, same]
    rfl
  | case2 before c text c₁ hr =>
    cases h
    cases hu
  | case3 => cases h
  | case4 before c completed status code text c₁ hr hne _ ih =>
    obtain ⟨turns, later, same⟩ := ih h
    obtain ⟨answers, silent, hears⟩ := hears_of_nextResponse (readResponse_ok hr).2
    refine ⟨_, hears.trans later, fun others => ?_⟩
    rw [collect_eq, readResponse_timeless hr (not_late_ok _)]
    dsimp only
    rw [if_neg hne, same, List.filterMap_append, List.filterMap_append, returned_eq_nil silent]
    simp [Turn.returned?]
  | case5 before c u c₁ hr _ ih =>
    obtain ⟨turns, later, same⟩ := ih h
    obtain ⟨answers, silent, hears⟩ := hears_of_nextResponse (readResponse_ok hr).2
    refine ⟨_, hears.trans later, fun others => ?_⟩
    rw [collect_eq, readResponse_timeless hr (not_late_ok _)]
    dsimp only
    rw [same, List.filterMap_append, List.filterMap_append, returned_eq_nil silent]
    simp [Turn.returned?]

/-- What has been read before is only handed on. -/
theorem collect_append {done : Completion} (h : collect tag before c = (.ok done, c'))
    (earlier : List Response) : collect tag (before ++ earlier) c =
      (.ok { done with responses := earlier.reverse ++ done.responses }, c') := by
  rw [collect_eq]
  fun_induction collect tag before c with
  | case1 => cases h
  | case2 => cases h
  | case3 before c status code text c₁ hr =>
    cases h
    rw [hr]
    simp
  | case4 before c completed status code text c₁ hr hne _ ih =>
    rw [hr]
    dsimp only
    rw [if_neg hne, collect_eq]
    exact ih h
  | case5 before c u c₁ hr _ ih =>
    rw [hr]
    dsimp only
    rw [collect_eq]
    exact ih h

/-! ### Long enough limits -/

theorem receive_patient {result : Except Error Response} (hw : c.waits ≤ limit)
    (h : receive limit c = (result, c')) (limit' : Duration) :
    Late (receive limit' c.timeless).1 ∨ ¬ Late result ∧ c'.waits ≤ c.waits := by
  cases hx : Inbox.expired (c.stream.timeless.read (Parse.framing c.parse) limit').1 with
  | true =>
    left
    unfold receive
    dsimp only [timeless]
    cases hr : (c.stream.timeless.read (Parse.framing c.parse) limit').1 with
    | expired s => exact ⟨limit', rfl⟩
    | _ =>
      rw [hr] at hx
      cases hx
  | false =>
    right
    obtain ⟨found, shorter⟩ := Wire.Stream.read_patient hw hx
    have stream := stream_receive limit c
    rw [h] at stream
    refine ⟨?_, by rw [waits, stream]; exact shorter⟩
    unfold receive at h
    dsimp only at h
    split at h
    next hr =>
      cases h
      exact not_late_ok _
    next hr =>
      cases h
      rintro ⟨limit, ⟨⟩⟩
    next hr =>
      cases h
      rintro ⟨limit, ⟨⟩⟩
    next hr =>
      cases h
      rintro ⟨limit, ⟨⟩⟩
    next s hr =>
      rw [hr] at found
      cases found

theorem waits_receive (hw : c.waits ≤ limit) (h : receive limit c = (.ok r, c')) :
    c'.waits ≤ c.waits := by
  rcases receive_patient hw h 0 with late | ⟨-, shorter⟩
  · rw [receive_timeless h (not_late_ok _)] at late
    exact absurd late (not_late_ok r)
  · exact shorter

theorem sendChunk_patient {result : Except Error Unit} (h : sendChunk t c = (result, c')) :
    (Late (sendChunk t c.timeless).1 ∨ ¬ Late result) ∧ c'.waits = c.waits := by
  have inbox : c'.stream.inbox = c.stream.inbox := by
    unfold sendChunk at h
    have stream := (congrArg (fun p => p.2.stream) h).symm.trans (stream_write _ _ _)
    rw [stream]
    exact Wire.Stream.inbox_write _ _ _
  refine ⟨?_, by rw [waits, inbox, waits]⟩
  have same := Wire.Stream.written_timeless t.next c.ioLimit 0 c.stream
  unfold sendChunk write at h ⊢
  dsimp only at h ⊢
  cases hw : (c.stream.write t.next c.ioLimit).1 with
  | stalled =>
    left
    rw [hw] at same
    dsimp only [timeless]
    rw [same]
    exact ⟨_, rfl⟩
  | all =>
    simp only [hw] at h
    cases h
    exact .inr (not_late_ok _)
  | fault f =>
    simp only [hw] at h
    cases h
    right
    rintro ⟨limit, ⟨⟩⟩

theorem nextResponse_patient {result : Except Error Response} (hw : c.waits ≤ limit)
    (h : nextResponse limit c = (result, c')) (limit' : Duration) :
    Late (nextResponse limit' c.timeless).1 ∨ ¬ Late result ∧ c'.waits ≤ c.waits := by
  fun_induction nextResponse limit c with
  | case1 c e c₁ hr =>
    cases h
    rcases receive_patient hw hr limit' with ⟨limit'', late⟩ | ⟨hl, shorter⟩
    · left
      have failed : receive limit' c.timeless = (.error (.timeout limit''), _) := Prod.ext late rfl
      rw [nextResponse_of_error failed]
      exact ⟨limit'', rfl⟩
    · refine .inr ⟨?_, shorter⟩
      rintro ⟨limit, ⟨⟩⟩
      exact hl ⟨limit, rfl⟩
  | case2 c c₁ text t hr hp e c₂ hs =>
    cases h
    obtain ⟨hl, same⟩ := sendChunk_patient hs
    rw [nextResponse_of_request (receive_timeless hr (not_late_ok _) limit') hp]
    rcases hl with ⟨limit'', late⟩ | hl
    · left
      rw [show sendChunk t c₁.timeless = (.error (.timeout limit''), _) from Prod.ext late rfl]
      exact ⟨limit'', rfl⟩
    · refine .inr ⟨?_, by rw [same]; exact waits_receive hw hr⟩
      rintro ⟨limit, ⟨⟩⟩
      exact hl ⟨limit, rfl⟩
  | case3 c c₁ text t hr hp c₂ hs _ _ ih =>
    have shorter : c₂.waits ≤ c.waits := by
      rw [(sendChunk_patient hs).2]
      exact waits_receive hw hr
    rw [nextResponse_of_request (receive_timeless hr (not_late_ok _) limit') hp,
      sendChunk_timeless hs (not_late_ok _)]
    rcases ih (Nat.le_trans shorter hw) h with late | ⟨hl, more⟩
    · exact .inl late
    · exact .inr ⟨hl, Nat.le_trans more shorter⟩
  | case4 c c₁ r₁ hr hn _ =>
    right
    have stream := stream_settle h
    refine ⟨?_, by rw [waits, stream]; exact waits_receive hw hr⟩
    rintro ⟨limit, rfl⟩
    obtain ⟨-, tag, he⟩ := settle_error h
    cases he

theorem readResponse_patient {result : Except Error Response} (hw : c.waits ≤ limit)
    (h : readResponse limit c = (result, c')) (limit' : Duration) :
    Late (readResponse limit' c.timeless).1 ∨ ¬ Late result ∧ c'.waits ≤ c.waits := by
  unfold readResponse at h ⊢
  split at h
  next hu =>
    cases h
    refine .inr ⟨?_, Nat.le_refl _⟩
    rintro ⟨limit, ⟨⟩⟩
  next hu =>
    rw [show (if !c.timeless.usable then _ else _) = _ from if_neg hu]
    exact nextResponse_patient hw h limit'

/-- What remains to be waited for after a response, and within which limit. -/
theorem patient_of_readResponse (hw : c.waits ≤ c.ioLimit)
    (h : readResponse c.ioLimit c = (.ok r, c')) : c'.waits ≤ c'.ioLimit := by
  obtain ⟨answers, -, hears⟩ := hears_of_nextResponse (readResponse_ok h).2
  rw [hears.ioLimit]
  rcases readResponse_patient hw h 0 with late | ⟨-, shorter⟩
  · rw [readResponse_timeless h (not_late_ok _)] at late
    exact absurd late (not_late_ok r)
  · exact Nat.le_trans shorter hw

theorem collect_patient {result : Except Error Completion} (hw : c.waits ≤ c.ioLimit)
    (h : collect tag before c = (result, c')) :
    Late (collect tag before c.timeless).1 ∨ ¬ Late result := by
  rw [collect_eq tag before c.timeless]
  fun_induction collect tag before c with
  | case1 before c e c₁ hr =>
    cases h
    rcases readResponse_patient hw hr 0 with ⟨limit, late⟩ | ⟨hl, -⟩
    · left
      rw [show readResponse c.timeless.ioLimit c.timeless = (.error (.timeout limit), _) from
        Prod.ext late rfl]
      exact ⟨limit, rfl⟩
    · right
      rintro ⟨limit, ⟨⟩⟩
      exact hl ⟨limit, rfl⟩
  | case2 before c text c₁ hr =>
    cases h
    right
    rintro ⟨limit, ⟨⟩⟩
  | case3 before c status code text c₁ hr =>
    cases h
    exact .inr (not_late_ok _)
  | case4 before c completed status code text c₁ hr hne _ ih =>
    rw [readResponse_timeless hr (not_late_ok _)]
    dsimp only
    rw [if_neg hne, collect_eq]
    exact ih (patient_of_readResponse hw hr) h
  | case5 before c u c₁ hr _ ih =>
    rw [readResponse_timeless hr (not_late_ok _)]
    dsimp only
    rw [collect_eq]
    exact ih (patient_of_readResponse hw hr) h

/-! ### Resuming -/

theorem readUntil_of_mem (h : tag ∈ c.outstanding) : readUntil tag c = collect tag [] c := by
  unfold readUntil
  rw [if_pos (by simpa using h)]

/-- Waits for a completion that have run out of time, one after the other, on a connection that
remains usable. -/
inductive Stalls (tag : Tag) : Connection → Connection → Prop where
  | none (c : Connection) : Stalls tag c c
  | once {c c₁ c' : Connection} {limit : Duration} :
      readUntil tag c = (.error (.timeout limit), c₁) → c₁.usable = true → Stalls tag c₁ c' →
        Stalls tag c c'

/-- Where such waits have come to, a wait without a limit would have come by itself. -/
theorem collect_of_stalls (h : Stalls tag c c') : ∃ turns, Hears c turns c' ∧
    ∀ before, collect tag before c.timeless =
      collect tag ((turns.filterMap Turn.returned?).reverse ++ before) c'.timeless := by
  induction h with
  | none c => exact ⟨[], .refl c, fun _ => rfl⟩
  | @once c c₁ c' limit hr hu _ ih =>
    obtain ⟨later, hears, same⟩ := ih
    have stalled : collect tag [] c = (.error (.timeout limit), c₁) := by
      unfold readUntil at hr
      split at hr
      · exact hr
      · cases hr
    obtain ⟨first, begun, split⟩ := timeless_collect hu stalled
    refine ⟨first ++ later, begun.trans hears, fun before => ?_⟩
    rw [split, same, List.filterMap_append, List.reverse_append, List.append_assoc]

def resumed (lost : List Response) (done : Completion) : Completion :=
  { done with responses := lost ++ done.responses }

theorem mem_outstanding_of_stalls (h : Stalls tag c c') (ht : tag ∈ c'.outstanding) :
    tag ∈ c.outstanding := by
  cases h with
  | none => exact ht
  | once hr =>
    unfold readUntil at hr
    split at hr
    next ho => simpa using ho
    · cases hr

/-- A command is completed after waits that ran out of time. A single wait that does not run out of
time has the responses that those have read, before the others. -/
theorem resumed_of_stalls (h : Stalls tag c c₁) {done : Completion}
    (hd : readUntil tag c₁ = (.ok done, c')) : ∃ turns, Hears c turns c₁ ∧
      let lost := turns.filterMap Turn.returned?
      (∀ limit, Late (readUntil tag (c.within limit)).1 ∨
        (readUntil tag (c.within limit)).1 = .ok (resumed lost done)) ∧
      (∀ limit, c.waits ≤ limit →
        (readUntil tag (c.within limit)).1 = .ok (resumed lost done)) ∧
      (resumed lost done = done ↔ lost = []) := by
  obtain ⟨turns, hears, same⟩ := collect_of_stalls h
  obtain ⟨ht, hcollect⟩ := readUntil_ok hd
  have known := mem_outstanding_of_stalls h ht
  -- The wait as it would have been without waiting for the server at all.
  have whole : collect tag [] c.timeless =
      (.ok (resumed (turns.filterMap Turn.returned?) done), c'.timeless) := by
    rw [same]
    have timeless := collect_append (collect_timeless hcollect (not_late_ok _))
      (turns.filterMap Turn.returned?).reverse
    rw [List.nil_append, List.reverse_reverse] at timeless
    rw [List.append_nil]
    exact timeless
  have single (limit : Duration) : Late (readUntil tag (c.within limit)).1 ∨
      (readUntil tag (c.within limit)).1 =
        .ok (resumed (turns.filterMap Turn.returned?) done) := by
    rw [readUntil_of_mem (c := c.within limit) known]
    by_cases hl : Late (collect tag [] (c.within limit)).1
    · exact .inl hl
    · have fast := collect_timeless (c := c.within limit) (Prod.ext rfl rfl) hl
      rw [timeless_within, whole] at fast
      exact .inr (congrArg Prod.fst fast).symm
  refine ⟨turns, hears, single, fun limit hw => ?_, ?_⟩
  · refine (single limit).resolve_left ?_
    rw [readUntil_of_mem (c := c.within limit) known]
    have patient : Late (collect tag [] (c.within limit).timeless).1 ∨ ¬ Late _ :=
      collect_patient hw (Prod.ext rfl rfl)
    rw [timeless_within, whole] at patient
    exact patient.resolve_left (not_late_ok _)
  · constructor
    · intro he
      have shorter := congrArg (fun d : Completion => d.responses.length) he
      simp only [resumed, List.length_append, Nat.add_eq_right] at shorter
      exact List.length_eq_zero_iff.mp shorter
    · intro he
      rw [he]
      rfl

/-- A report comes in time and the completion does not. The wait that is taken up again no longer
has the report. -/
theorem not_resumed_in_full :
    let stream := Wire.Stream.start [.data (Bytes.ofText "* OK hi\r\n* 1 EXISTS\r\n"),
      .pause (Duration.seconds 6), .data (Bytes.ofText "A0000 OK done\r\n")] .unlimited
    let tag : Tag := ⟨"A0000"⟩
    let settings : Settings := { host := "mail", ioLimit := Duration.seconds 5 }
    let c := (send tag (.named "NOOP") (start stream settings).2).2
    let c₁ := (readUntil tag c).2
    Stalls tag c c₁ ∧ ∃ done lost, lost ≠ [] ∧ (readUntil tag c₁).1 = .ok done ∧
      (readUntil tag (c.within (Duration.seconds 6))).1 = .ok (resumed lost done) := by
  intro stream tag settings c c₁
  have late : (match (readUntil tag c).1 with
      | .error e => some e
      | .ok _ => none) = some (.timeout settings.ioLimit) := by decide +kernel
  have stalled : readUntil tag c = (.error (.timeout settings.ioLimit), c₁) := by
    refine Prod.ext ?_ rfl
    cases hr : (readUntil tag c).1 with
    | error e => simpa [hr] using late
    | ok done => simp [hr] at late
  have stalls : Stalls tag c c₁ := .once stalled (by decide +kernel) (.none c₁)
  have found : ((readUntil tag c₁).1.toOption.map fun done => done.responses.length) = some 0 := by
    decide +kernel
  cases hd : (readUntil tag c₁).1 with
  | error e => simp [hd, Except.toOption] at found
  | ok done =>
    obtain ⟨turns, -, -, whole, same⟩ := resumed_of_stalls stalls (Prod.ext hd rfl)
    have whole := whole (Duration.seconds 6) (by decide +kernel)
    refine ⟨stalls, done, _, ?_, rfl, whole⟩
    intro hl
    have longer : ((readUntil tag (c.within (Duration.seconds 6))).1.toOption.map fun done =>
        done.responses.length) = some 1 := by decide +kernel
    rw [whole, same.mpr hl, ← hd, found] at longer
    cases longer

end MailClient.Imap.Connection
