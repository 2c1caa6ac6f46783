import MailClient.Imap.Literal
import MailClient.Proofs.Wire.Source

/-! Payloads of announced length, read over any pieces. However a view is read, it hands out the
announced octets in order and none behind them, and `drain` goes to their end. A payload is read
exactly, whether it is kept in memory or in a file, unless it is to be in memory and there is no
buffer of its size. -/
namespace MailClient.Imap.Literal

open Wire (Source)

namespace View

/-- What it comes to that `n` octets are read, of which there may be fewer. -/
def pass (n : Nat) (v : View) : Bytes × View :=
  let n := min n v.remaining
  let bytes := v.source.content.take n
  (bytes, ⟨v.source.after n, v.remaining - bytes.length⟩)

variable {v : View} {n k : Nat}

theorem pass_of_remaining_eq_zero (h : v.remaining = 0) (n : Nat) : v.pass n = ([], v) := by
  obtain ⟨s, remaining⟩ := v
  cases h
  simp [pass]

theorem pass_of_content_eq_nil (hc : v.source.content = []) (hr : v.remaining ≠ 0) (hn : 0 < n) :
    v.pass n = ([], ⟨⟨[], []⟩, v.remaining⟩) := by
  have past : v.source.after (min n v.remaining) = ⟨[], []⟩ := by
    apply Source.after_of_lt
    rw [hc, List.length_nil]
    omega
  simp [pass, hc, past]

/-- Octets that are all there may be read first. -/
theorem pass_add (hr : k ≤ v.remaining) (hc : k ≤ v.source.content.length) (n : Nat) :
    v.pass (k + n) =
      ((v.pass k).1 ++ ((v.pass k).2.pass n).1, ((v.pass k).2.pass n).2) := by
  have size : min (k + n) v.remaining = k + min n (v.remaining - k) := by omega
  have first : (v.source.content.take k).length = k := List.length_take_of_le hc
  simp only [pass, size, Nat.min_eq_left hr, first, List.take_add, Source.after_add,
    Source.content_after, List.length_append, Nat.sub_add_eq]

theorem length_pass (hr : k ≤ v.remaining) (hc : k ≤ v.source.content.length) :
    (v.pass k).1.length = k := by
  simp only [pass, Nat.min_eq_left hr]
  exact List.length_take_of_le hc

/-! ### One read -/

theorem fill_of_remaining_eq_zero (h : v.remaining = 0) : v.fill = ([], v) := if_pos h

theorem fill_of_remaining_ne_zero (h : v.remaining ≠ 0) :
    v.fill = (v.source.fill.buffer.take v.remaining, ⟨v.source.fill, v.remaining⟩) := if_neg h

theorem read_of_remaining_eq_zero (h : v.remaining = 0) (n : Nat) : v.read n = ([], v) := by
  rw [read, fill_of_remaining_eq_zero h]
  obtain ⟨s, remaining⟩ := v
  simp [consume, Source.consume]

theorem read_of_remaining_ne_zero (h : v.remaining ≠ 0) (n : Nat) :
    v.read n =
      let k := min n (min v.remaining v.source.fill.buffer.length)
      (v.source.fill.buffer.take k, ⟨v.source.fill.consume k, v.remaining - k⟩) := by
  have shown : (v.source.fill.buffer.take v.remaining).take n =
      v.source.fill.buffer.take (min n (min v.remaining v.source.fill.buffer.length)) := by
    rw [List.take_take, ← Nat.min_assoc, List.take_eq_take_iff]
    omega
  have count : min n (min v.remaining v.source.fill.buffer.length) ≤
      v.source.fill.buffer.length := by omega
  rw [read, fill_of_remaining_ne_zero h]
  simp only [shown, consume, List.length_take_of_le count]
  rw [Nat.min_eq_left (show min n (min v.remaining _) ≤ v.remaining by omega)]

theorem read_of_content_eq_nil (hc : v.source.content = []) (hr : v.remaining ≠ 0) (n : Nat) :
    v.read n = ([], ⟨⟨[], []⟩, v.remaining⟩) := by
  rw [read_of_remaining_ne_zero hr, Source.fill_of_content_eq_nil hc]
  simp [Source.consume]

/-- What is taken from a filled buffer has been read. -/
theorem pass_of_filled (hk : 0 < k) (hr : k ≤ v.remaining) (hb : k ≤ v.source.fill.buffer.length) :
    v.pass k =
      (v.source.fill.buffer.take k, ⟨v.source.fill.consume k, v.remaining - k⟩) := by
  have bytes : v.source.content.take k = v.source.fill.buffer.take k := by
    rw [← Source.content_fill, Source.take_content_of_le hb]
  have left : v.source.after k = v.source.fill.consume k := by
    rw [← Source.after_fill hk, Source.after_of_le hb]
  simp only [pass, Nat.min_eq_left hr, bytes, left, List.length_take_of_le hb]

theorem length_buffer_fill (s : Source) :
    s.fill.buffer.length ≤ s.content.length ∧ (s.content ≠ [] → 0 < s.fill.buffer.length) := by
  constructor
  · rw [← Source.content_fill]
    exact (Source.buffer_isPrefix_content _).length_le
  · intro h
    exact List.length_pos_iff.mpr (Source.buffer_fill_ne_nil h)

/-- A read that has room is served from what comes, in one piece. -/
theorem read_eq_pass (hr : v.remaining ≠ 0) (hc : v.source.content ≠ []) (hn : 0 < n) :
    ∃ k, 0 < k ∧ k ≤ n ∧ k ≤ v.remaining ∧ k ≤ v.source.content.length ∧ v.read n = v.pass k := by
  obtain ⟨there, filled⟩ := length_buffer_fill v.source
  have := filled hc
  refine ⟨min n (min v.remaining v.source.fill.buffer.length), by omega, by omega, by omega,
    by omega, ?_⟩
  rw [read_of_remaining_ne_zero hr, pass_of_filled (by omega) (by omega) (by omega)]

/-! ### Reads in a loop -/

theorem readUpTo_of_nil (h : (v.read n).1 = []) (hn : n ≠ 0) : v.readUpTo n = v.read n := by
  rw [readUpTo, if_neg hn]
  exact (if_pos h).trans (Prod.ext h.symm rfl)

theorem readUpTo_of_ne_nil (h : (v.read n).1 ≠ []) (hn : n ≠ 0) :
    v.readUpTo n =
      ((v.read n).1 ++ ((v.read n).2.readUpTo (n - (v.read n).1.length)).1,
        ((v.read n).2.readUpTo (n - (v.read n).1.length)).2) := by
  rw [readUpTo, if_neg hn]
  exact if_neg h

theorem readUpTo_eq_pass (n : Nat) (v : View) : v.readUpTo n = v.pass n := by
  induction n using Nat.strongRecOn generalizing v with
  | ind n ih =>
    by_cases hn : n = 0
    · subst hn
      simp [readUpTo, pass]
    · by_cases hr : v.remaining = 0
      · rw [readUpTo_of_nil _ hn, read_of_remaining_eq_zero hr, pass_of_remaining_eq_zero hr]
        rw [read_of_remaining_eq_zero hr]
      · by_cases hc : v.source.content = []
        · have served := read_of_content_eq_nil hc hr n
          rw [readUpTo_of_nil (by rw [served]) hn, served,
            pass_of_content_eq_nil hc hr (Nat.pos_of_ne_zero hn)]
        · obtain ⟨k, hk, hkn, hkr, hkc, served⟩ := read_eq_pass hr hc (Nat.pos_of_ne_zero hn)
          have size := length_pass hkr hkc
          have came : (v.pass k).1 ≠ [] := List.length_pos_iff.mp (by omega)
          rw [readUpTo_of_ne_nil (by rwa [served]) hn, served, size, ih (n - k) (by omega),
            ← pass_add hkr hkc, Nat.add_sub_cancel' hkn]

theorem readAll_of_nil {room : Nat} (h : (v.read room).1 = []) :
    v.readAll room = v.read room := by
  rw [readAll]
  exact (dif_pos h).trans (Prod.ext h.symm rfl)

theorem readAll_of_ne_nil {room : Nat} (h : (v.read room).1 ≠ []) :
    v.readAll room =
      ((v.read room).1 ++ ((v.read room).2.readAll room).1, ((v.read room).2.readAll room).2) := by
  rw [readAll]
  exact dif_neg h

theorem remaining_pass (hr : k ≤ v.remaining) (hc : k ≤ v.source.content.length) :
    (v.pass k).2.remaining = v.remaining - k := by
  show v.remaining - (v.pass k).1.length = _
  rw [length_pass hr hc]

theorem readAll_eq_pass {room : Nat} (h : 0 < room) (v : View) :
    v.readAll room = v.pass v.remaining := by
  generalize size : v.remaining = remaining
  induction remaining using Nat.strongRecOn generalizing v with
  | ind remaining ih =>
    subst size
    by_cases hr : v.remaining = 0
    · have served := read_of_remaining_eq_zero hr room
      rw [readAll_of_nil (by rw [served]), served, pass_of_remaining_eq_zero hr]
    · by_cases hc : v.source.content = []
      · have served := read_of_content_eq_nil hc hr room
        rw [readAll_of_nil (by rw [served]), served,
          pass_of_content_eq_nil hc hr (Nat.pos_of_ne_zero hr)]
      · obtain ⟨k, hk, -, hkr, hkc, served⟩ := read_eq_pass hr hc h
        have size := length_pass hkr hkc
        have came : (v.pass k).1 ≠ [] := List.length_pos_iff.mp (by omega)
        rw [readAll_of_ne_nil (by rwa [served]), served,
          ih (v.remaining - k) (by omega) _ (remaining_pass hkr hkc), ← pass_add hkr hkc,
          Nat.add_sub_cancel' hkr]

/-- As long as anything comes, what the buffer shows is passed over. -/
theorem drain_of_ne_nil (hr : v.remaining ≠ 0) (hc : v.source.content ≠ []) :
    ∃ k, 0 < k ∧ k ≤ v.remaining ∧ k ≤ v.source.content.length ∧
      v.drain = ((v.pass k).2.drain.1.map (k + ·), (v.pass k).2.drain.2) := by
  obtain ⟨there, filled⟩ := length_buffer_fill v.source
  have := filled hc
  refine ⟨min v.source.fill.buffer.length v.remaining, by omega, by omega, by omega, ?_⟩
  rw [drain, if_neg hr, if_neg (Source.buffer_fill_ne_nil hc),
    pass_of_filled (by omega) (by omega) (by omega)]
  dsimp only
  split
  next heq => rw [heq]; rfl
  next heq => rw [heq]; rfl

theorem drain_eq_pass (v : View) :
    v.drain =
      (if (v.pass v.remaining).2.remaining = 0 then .ok (v.pass v.remaining).1.length
        else .error (.unread (v.pass v.remaining).2.remaining), (v.pass v.remaining).2) := by
  generalize size : v.remaining = remaining
  induction remaining using Nat.strongRecOn generalizing v with
  | ind remaining ih =>
    subst size
    by_cases hr : v.remaining = 0
    · rw [drain, if_pos hr, pass_of_remaining_eq_zero hr]
      simp [hr]
    · by_cases hc : v.source.content = []
      · rw [drain, if_neg hr, pass_of_content_eq_nil hc hr (Nat.pos_of_ne_zero hr)]
        simp [Source.fill_of_content_eq_nil hc, hr]
      · obtain ⟨k, hk, hkr, hkc, passes⟩ := drain_of_ne_nil hr hc
        have size := length_pass hkr hkc
        have whole := pass_add hkr hkc (v.remaining - k)
        rw [Nat.add_sub_cancel' hkr] at whole
        rw [passes, ih (v.remaining - k) (by omega) _ (remaining_pass hkr hkc), whole]
        simp only [List.length_append, size]
        split <;> rfl

/-! ### What a view hands out -/

structure Advances (v : View) (bytes : Bytes) (v' : View) : Prop where
  content : v.source.content = bytes ++ v'.source.content
  counted : v.remaining = bytes.length + v'.remaining

theorem Advances.trans {v' v'' : View} {bytes more : Bytes} (h : Advances v bytes v')
    (h' : Advances v' more v'') : Advances v (bytes ++ more) v'' := by
  constructor
  · rw [h.content, h'.content, List.append_assoc]
  · rw [h.counted, h'.counted, List.length_append, Nat.add_assoc]

theorem Advances.refl (v : View) : Advances v [] v := ⟨rfl, (Nat.zero_add _).symm⟩

theorem advances_fill (v : View) : Advances v [] v.fill.2 := by
  by_cases hr : v.remaining = 0
  · rw [fill_of_remaining_eq_zero hr]
    exact .refl v
  · rw [fill_of_remaining_ne_zero hr]
    exact ⟨(Source.content_fill _).symm, (Nat.zero_add _).symm⟩

def shown (v : View) : Bytes := v.source.buffer.take v.remaining

theorem length_shown_le (v : View) :
    v.shown.length ≤ v.source.buffer.length ∧ v.shown.length ≤ v.remaining := by
  rw [shown, List.length_take]
  omega

theorem advances_consume (h : n ≤ v.shown.length) :
    Advances v (v.shown.take n) (v.consume n) := by
  have bounds := v.length_shown_le
  have size : min n v.remaining = n := by omega
  have bytes : v.shown.take n = v.source.buffer.take n := by
    rw [shown, List.take_take, size]
  rw [bytes, consume, size]
  constructor
  · show _ = _ ++ (v.source.buffer.drop n ++ v.source.feed.flatten)
    rw [← List.append_assoc, List.take_append_drop]
    rfl
  · rw [List.length_take_of_le (show n ≤ v.source.buffer.length by omega)]
    show v.remaining = n + (v.remaining - n)
    omega

/-- What a filled buffer shows is what `fill` returns. -/
theorem shown_fill (v : View) : v.fill.2.shown = v.fill.1 := by
  by_cases hr : v.remaining = 0
  · rw [fill_of_remaining_eq_zero hr]
    show v.source.buffer.take v.remaining = []
    rw [hr, List.take_zero]
  · rw [fill_of_remaining_ne_zero hr]
    rfl

theorem advances_read (v : View) (n : Nat) : Advances v (v.read n).1 (v.read n).2 := by
  have count : (v.fill.1.take n).length ≤ v.fill.2.shown.length := by
    rw [shown_fill]
    exact List.length_take_le' n _
  have taken : v.fill.2.shown.take (v.fill.1.take n).length = v.fill.1.take n := by
    rw [shown_fill, List.length_take, ← List.take_take, List.take_length]
  have consumed := v.advances_fill.trans (advances_consume count)
  rwa [taken] at consumed

theorem advances_pass (v : View) (n : Nat) : Advances v (v.pass n).1 (v.pass n).2 := by
  constructor
  · show _ = _ ++ (v.source.after _).content
    rw [Source.content_after]
    exact (List.take_append_drop _ _).symm
  · have bound : (v.pass n).1.length ≤ v.remaining :=
      Nat.le_trans (List.length_take_le _ _) (Nat.min_le_right _ _)
    show _ = (v.pass n).1.length + (v.remaining - (v.pass n).1.length)
    omega

end View

inductive Access where
  | fill
  | consume (count : Nat)
  | read (room : Nat)
  | readUpTo (count : Nat)
  | readAll (room : Nat)
  deriving DecidableEq, Repr

namespace Access

/-- No more is consumed than the buffer shows. -/
def Lawful (v : View) : Access → Prop
  | .consume count => count ≤ v.shown.length
  | .fill | .read _ | .readUpTo _ | .readAll _ => True

instance (v : View) : (a : Access) → Decidable (a.Lawful v)
  | .consume count => inferInstanceAs (Decidable (count ≤ v.shown.length))
  | .fill | .read _ | .readUpTo _ | .readAll _ => .isTrue trivial

def perform (v : View) : Access → Bytes × View
  | .fill => ([], v.fill.2)
  | .consume count => (v.shown.take count, v.consume count)
  | .read room => v.read room
  | .readUpTo count => v.readUpTo count
  | .readAll room => v.readAll room

def AllLawful (v : View) : List Access → Prop
  | [] => True
  | a :: as => a.Lawful v ∧ AllLawful (a.perform v).2 as

instance decidableAllLawful (v : View) : (as : List Access) → Decidable (AllLawful v as)
  | [] => .isTrue trivial
  | a :: as =>
    have := decidableAllLawful (a.perform v).2 as
    inferInstanceAs (Decidable (a.Lawful v ∧ AllLawful (a.perform v).2 as))

def run (v : View) : List Access → Bytes × View
  | [] => ([], v)
  | a :: as =>
    let (bytes, v) := a.perform v
    let (more, v) := run v as
    (bytes ++ more, v)

variable {v : View}

theorem advances_readAll (v : View) (room : Nat) :
    v.Advances (v.readAll room).1 (v.readAll room).2 := by
  by_cases h : 0 < room
  · rw [View.readAll_eq_pass h]
    exact v.advances_pass _
  · have nothing : (v.read room).1 = [] := by
      obtain rfl : room = 0 := by omega
      exact v.fill.1.take_zero
    rw [View.readAll_of_nil nothing]
    exact v.advances_read room

theorem advances_perform {a : Access} (h : a.Lawful v) :
    v.Advances (a.perform v).1 (a.perform v).2 := by
  cases a with
  | fill => exact v.advances_fill
  | consume count => exact View.advances_consume h
  | read room => exact v.advances_read room
  | readUpTo count =>
    show v.Advances (v.readUpTo count).1 (v.readUpTo count).2
    rw [View.readUpTo_eq_pass]
    exact v.advances_pass count
  | readAll room => exact advances_readAll v room

theorem advances_run {as : List Access} (h : AllLawful v as) :
    v.Advances (run v as).1 (run v as).2 := by
  induction as generalizing v with
  | nil => exact .refl v
  | cons a as ih => exact (advances_perform h.1).trans (ih h.2)

/-- Once all that was announced has been read, nothing is done to the source any more. -/
theorem perform_of_remaining_eq_zero {a : Access} (h : a.Lawful v) (hr : v.remaining = 0) :
    a.perform v = ([], v) := by
  have nothing : v.shown = [] := by rw [View.shown, hr, List.take_zero]
  cases a with
  | fill => rw [perform, View.fill_of_remaining_eq_zero hr]
  | consume count =>
    obtain rfl : count = 0 := by simpa [Lawful, nothing] using h
    simp [perform, View.consume, Wire.Source.consume]
  | read room => exact View.read_of_remaining_eq_zero hr room
  | readUpTo count =>
    exact (View.readUpTo_eq_pass count v).trans (View.pass_of_remaining_eq_zero hr count)
  | readAll room =>
    have served := View.read_of_remaining_eq_zero hr room
    rw [perform, View.readAll_of_nil (by rw [served]), served]

end Access

/-! ### Draining -/

namespace View

variable {v : View}

theorem drain_of_le (h : v.remaining ≤ v.source.content.length) :
    v.drain = (.ok v.remaining, ⟨v.source.after v.remaining, 0⟩) := by
  have size := length_pass (Nat.le_refl _) h
  have left := remaining_pass (Nat.le_refl _) h
  rw [Nat.sub_self] at left
  rw [drain_eq_pass, if_pos left, size]
  congr 1
  rw [pass, Nat.min_self] at left ⊢
  exact congrArg (View.mk _) left

theorem drain_of_lt (h : v.source.content.length < v.remaining) :
    v.drain = (.error (.unread (v.remaining - v.source.content.length)),
      ⟨⟨[], []⟩, v.remaining - v.source.content.length⟩) := by
  have left : v.pass v.remaining =
      (v.source.content, ⟨⟨[], []⟩, v.remaining - v.source.content.length⟩) := by
    rw [pass, Nat.min_self, Source.after_of_lt h, List.take_of_length_le (Nat.le_of_lt h)]
  rw [drain_eq_pass, left]
  exact congrArg (·, _) (if_neg (Nat.sub_ne_zero_of_lt h))

/-- How a view of `size` octets of the source stands when the octets have been handed out. -/
structure Bounded (source : Source) (size : Nat) (bytes : Bytes) (v : View) : Prop where
  initial : bytes <+: source.content.take size
  counted : bytes.length + v.remaining = size
  position : v.source.content = source.content.drop bytes.length
  /-- What is shown next are octets that follow, and none that was not announced. -/
  shows : v.fill.1 <+: v.source.content.take v.remaining
  proceeds : ∀ room, (v.read room).1 = [] → room = 0 ∨ bytes.length = size ∨ v.source.content = []
  ended : bytes.length = size → ∀ a : Access, a.Lawful v → a.perform v = ([], v)
  drains : size ≤ source.content.length →
    ∃ rest, v.drain = (.ok (size - bytes.length), ⟨rest, 0⟩) ∧
      rest.content = source.content.drop size
  breaks : source.content.length < size →
    ∃ missing rest, v.drain = (.error (.unread missing), ⟨rest, missing⟩) ∧
      missing = size - source.content.length ∧ rest.content = []

/-- However a view is read, with no more consumed than it shows, it stays within its bounds. -/
theorem bounded_run {source : Source} {size : Nat} {accesses : List Access}
    (h : Access.AllLawful ⟨source, size⟩ accesses) :
    Bounded source size (Access.run ⟨source, size⟩ accesses).1
      (Access.run ⟨source, size⟩ accesses).2 := by
  have advances := Access.advances_run h
  generalize (Access.run ⟨source, size⟩ accesses).1 = bytes at advances ⊢
  generalize (Access.run ⟨source, size⟩ accesses).2 = v at advances ⊢
  obtain ⟨content, counted⟩ := advances
  dsimp only at content counted
  have length : source.content.length = bytes.length + v.source.content.length := by
    rw [content, List.length_append]
  refine ⟨?initial, counted.symm, ?position, ?shows, ?proceeds, ?ended, ?drains, ?breaks⟩
  case initial =>
    rw [content, counted, List.take_length_add_append]
    exact List.prefix_append _ _
  case position => rw [content, List.drop_left]
  case shows =>
    by_cases hr : v.remaining = 0
    · rw [fill_of_remaining_eq_zero hr]
      exact List.nil_prefix
    · rw [fill_of_remaining_ne_zero hr, ← Source.content_fill, Source.content, List.take_append]
      exact List.prefix_append _ _
  case proceeds =>
    intro room nothing
    by_cases hn : room = 0
    · exact .inl hn
    by_cases hr : v.remaining = 0
    · exact .inr (.inl (by omega))
    by_cases hc : v.source.content = []
    · exact .inr (.inr hc)
    obtain ⟨k, hk, -, hkr, hkc, served⟩ := read_eq_pass hr hc (Nat.pos_of_ne_zero hn)
    have count := length_pass hkr hkc
    rw [← served, nothing, List.length_nil] at count
    omega
  case ended =>
    intro all a ha
    exact Access.perform_of_remaining_eq_zero ha (by omega)
  case drains =>
    intro enough
    refine ⟨v.source.after v.remaining, ?_, ?_⟩
    · rw [drain_of_le (by omega), counted, Nat.add_sub_cancel_left]
    · rw [Source.content_after, content, counted, List.drop_length_add_append]
  case breaks =>
    intro short
    exact ⟨_, _, drain_of_lt (by omega), by omega, rfl⟩

/-- The second piece holds the last announced octets and one behind them. -/
theorem bounded_run_straddling :
    Access.AllLawful ⟨⟨[1, 2], [[3, 4, 5], [6]]⟩, 4⟩ [.read 1, .consume 1, .fill, .read 5] ∧
      Bounded ⟨[1, 2], [[3, 4, 5], [6]]⟩ 4 [1, 2, 3, 4] ⟨⟨[5], [[6]]⟩, 0⟩ := by
  have lawful : Access.AllLawful ⟨⟨[1, 2], [[3, 4, 5], [6]]⟩, 4⟩
      [.read 1, .consume 1, .fill, .read 5] := by decide
  exact ⟨lawful, bounded_run lawful⟩

end View

/-! ### Whole payloads -/

/-- There is room for a payload that is to be in memory. -/
def Memory.Suffices (memory : Memory) (size threshold : Nat) : Prop :=
  size ≤ threshold → size ≤ memory.room

variable {memory : Memory} {source : Source} {size threshold : Nat}

theorem Memory.room_lt_size (memory : Memory) : memory.room < USize.size := by
  have := memory.addressable
  omega

theorem View.pass_size (source : Source) (size : Nat) :
    (View.mk source size).pass size =
      (source.content.take size,
        ⟨source.after size, size - (source.content.take size).length⟩) := by
  rw [View.pass, Nat.min_self]

theorem readInto_of_le_room (h : size ≤ memory.room) :
    readInto memory source size =
      (if source.content.length < size then .short .early
        else .read ⟨source.content.take size, false⟩, source.after size) := by
  have addressed := memory.room_lt_size
  rw [readInto, if_neg (by omega), if_neg (by omega), View.readExact, View.readUpTo_eq_pass,
    View.pass_size]
  by_cases lacking : source.content.length < size
  · have all : source.content.take size = source.content := List.take_of_length_le (by omega)
    simp [lacking, all]
  · have count : (source.content.take size).length = size := List.length_take_of_le (by omega)
    simp [lacking, count]

theorem copyFrom_eq (source : Source) (size : Nat) :
    copyFrom source size =
      (if source.content.length < size then .short (.copied source.content.length size)
        else .read ⟨source.content.take size, true⟩, source.after size) := by
  have passed : (View.mk source size).readAll portion = (View.mk source size).pass size :=
    View.readAll_eq_pass (by decide) _
  rw [copyFrom, passed, View.pass_size]
  by_cases lacking : source.content.length < size
  · have all : source.content.take size = source.content := List.take_of_length_le (by omega)
    simp [lacking, all]
  · have count : (source.content.take size).length = size := List.length_take_of_le (by omega)
    simp [lacking, count, View.drain]

theorem readFrom_of_suffices (h : memory.Suffices size threshold) (source : Source) :
    readFrom memory source size threshold =
      (if source.content.length < size then
          .short (if size ≤ threshold then .early else .copied source.content.length size)
        else .read ⟨source.content.take size, decide (threshold < size)⟩, source.after size) := by
  by_cases within : size ≤ threshold
  · rw [readFrom, if_pos within, readInto_of_le_room (h within), if_pos within,
      decide_eq_false (Nat.not_lt_of_le within)]
  · rw [readFrom, if_neg within, copyFrom_eq, if_neg within,
      decide_eq_true (Nat.lt_of_not_le within)]

theorem readFrom_of_not_suffices (h : ¬memory.Suffices size threshold) (source : Source) :
    readFrom memory source size threshold =
      (if USize.size ≤ size then .unaddressable else .stopped, source) := by
  obtain ⟨within, beyond⟩ := Classical.not_imp.mp h
  rw [readFrom, if_pos within, readInto]
  by_cases addressed : USize.size ≤ size
  · rw [if_pos addressed, if_pos addressed]
  · rw [if_neg addressed, if_neg addressed, if_pos (Nat.lt_of_not_le beyond)]

theorem ending_of_not_suffices (h : ¬memory.Suffices size threshold) (source : Source) :
    (readFrom memory source size threshold).1 = .unaddressable ∨
      (readFrom memory source size threshold).1 = .stopped := by
  rw [readFrom_of_not_suffices h]
  by_cases addressed : USize.size ≤ size
  · exact .inl (if_pos addressed)
  · exact .inr (if_neg addressed)

structure Exact (memory : Memory) (source : Source) (size threshold : Nat) : Prop where
  whole : (∃ l, (readFrom memory source size threshold).1 = .read l) ↔
    size ≤ source.content.length
  payload : ∀ l rest, readFrom memory source size threshold = (.read l, rest) →
    l.bytes = source.content.take size ∧ l.size = size ∧ (l.spilled = true ↔ threshold < size) ∧
      rest.content = source.content.drop size
  /-- The source has ended before the payload. -/
  short : source.content.length < size → ∃ rest,
    readFrom memory source size threshold =
        (.short (if size ≤ threshold then .early else .copied source.content.length size), rest) ∧
      rest.content = []

/-- The same end, but for where the payload is kept and how its end was missed. -/
inductive Ending.Like : Ending → Ending → Prop where
  | read {a b : Literal} (h : a.bytes = b.bytes) : Like (.read a) (.read b)
  | short (found found' : Shortfall) : Like (.short found) (.short found')
  | unaddressable : Like .unaddressable .unaddressable
  | stopped : Like .stopped .stopped

def Alike (memory : Memory) (source : Source) (size threshold threshold' : Nat) : Prop :=
  (readFrom memory source size threshold).1.Like (readFrom memory source size threshold').1 ∧
    (readFrom memory source size threshold).2 = (readFrom memory source size threshold').2

theorem exact_of_suffices (h : memory.Suffices size threshold) :
    Exact memory source size threshold := by
  have ended := readFrom_of_suffices h source
  by_cases lacking : source.content.length < size
  · rw [if_pos lacking] at ended
    refine ⟨?whole, ?payload, ?short⟩
    case whole =>
      rw [ended]
      constructor
      · rintro ⟨l, hl⟩
        cases hl
      · intro there
        omega
    case payload =>
      intro l rest hl
      rw [ended] at hl
      cases hl
    case short =>
      intro _
      refine ⟨_, ended, ?_⟩
      rw [Source.content_after, List.drop_of_length_le (Nat.le_of_lt lacking)]
  · rw [if_neg lacking] at ended
    have there : size ≤ source.content.length := Nat.le_of_not_lt lacking
    refine ⟨?whole, ?payload, ?short⟩
    case whole =>
      rw [ended]
      constructor
      · exact fun _ => there
      · exact fun _ => ⟨_, rfl⟩
    case payload =>
      intro l rest hl
      rw [ended] at hl
      cases hl
      exact ⟨rfl, List.length_take_of_le there, decide_eq_true_iff, Source.content_after _ _⟩
    case short =>
      intro lacks
      exact absurd lacks lacking

theorem not_exact_of_not_suffices (h : ¬memory.Suffices size threshold) :
    ¬Exact memory source size threshold := by
  intro exact
  have refused := ending_of_not_suffices h source
  by_cases lacking : source.content.length < size
  · obtain ⟨rest, missed, -⟩ := exact.short lacking
    rw [missed] at refused
    rcases refused with refused | refused <;> cases refused
  · obtain ⟨l, given⟩ := exact.whole.mpr (Nat.le_of_not_lt lacking)
    rw [given] at refused
    rcases refused with refused | refused <;> cases refused

theorem Ending.Like.symm {a b : Ending} (h : a.Like b) : b.Like a := by
  cases h with
  | read same => exact .read same.symm
  | short found found' => exact .short found' found
  | unaddressable => exact .unaddressable
  | stopped => exact .stopped

theorem Alike.symm {threshold' : Nat} (h : Alike memory source size threshold threshold') :
    Alike memory source size threshold' threshold := ⟨h.1.symm, h.2.symm⟩

theorem alike_of_suffices {threshold' : Nat} (h : memory.Suffices size threshold)
    (h' : memory.Suffices size threshold') : Alike memory source size threshold threshold' := by
  rw [Alike, readFrom_of_suffices h, readFrom_of_suffices h']
  by_cases lacking : source.content.length < size
  · rw [if_pos lacking, if_pos lacking]
    exact ⟨.short _ _, rfl⟩
  · rw [if_neg lacking, if_neg lacking]
    exact ⟨.read rfl, rfl⟩

theorem alike_of_not_suffices {threshold' : Nat} (h : ¬memory.Suffices size threshold)
    (h' : ¬memory.Suffices size threshold') : Alike memory source size threshold threshold' := by
  rw [Alike, readFrom_of_not_suffices h, readFrom_of_not_suffices h']
  refine ⟨?_, rfl⟩
  split
  · exact .unaddressable
  · exact .stopped

theorem Alike.suffices {threshold' : Nat} (h : Alike memory source size threshold threshold')
    (there : memory.Suffices size threshold) : memory.Suffices size threshold' := by
  by_cases there' : memory.Suffices size threshold'
  · exact there'
  have like := h.1
  rw [readFrom_of_suffices there] at like
  rcases ending_of_not_suffices there' source with refused | refused
  all_goals
    rw [refused] at like
    by_cases lacking : source.content.length < size
    · rw [if_pos lacking] at like
      cases like
    · rw [if_neg lacking] at like
      cases like

/-- Payloads are exact, and two thresholds alike, as far as there is room for what is to be in
memory. Otherwise nothing is read. -/
theorem exact_iff (memory : Memory) (source : Source) (size threshold : Nat) :
    (Exact memory source size threshold ↔ memory.Suffices size threshold) ∧
      (memory.Suffices size threshold ∨ readFrom memory source size threshold =
        (if USize.size ≤ size then .unaddressable else .stopped, source)) ∧
      ∀ threshold', Alike memory source size threshold threshold' ↔
        (memory.Suffices size threshold ↔ memory.Suffices size threshold') := by
  by_cases h : memory.Suffices size threshold
  · refine ⟨⟨fun _ => h, fun _ => exact_of_suffices h⟩, .inl h, ?_⟩
    intro threshold'
    constructor
    · intro alike
      exact ⟨fun _ => alike.suffices h, fun _ => h⟩
    · intro same
      exact alike_of_suffices h (same.mp h)
  · refine ⟨⟨fun exact => absurd exact (not_exact_of_not_suffices h), fun h' => absurd h' h⟩,
      .inr (readFrom_of_not_suffices h source), ?_⟩
    intro threshold'
    constructor
    · intro alike
      exact ⟨fun h' => absurd h' h, fun h' => alike.symm.suffices h'⟩
    · intro same
      exact alike_of_not_suffices h (fun h' => h (same.mpr h'))

/-- No buffer takes half of all addresses, and a file can. -/
theorem not_exact_half_of_addresses :
    ¬Exact .largest ⟨[], []⟩ (Nat.pow 2 63) (Nat.pow 2 63) ∧
      Exact .largest ⟨[], []⟩ (Nat.pow 2 63) (Nat.pow 2 63 - 1) := by
  constructor
  · intro exact
    have room := (exact_iff .largest ⟨[], []⟩ (Nat.pow 2 63) (Nat.pow 2 63)).1.mp exact
      (Nat.le_refl _)
    have addressable := Memory.largest.addressable
    have addresses := USize.size_le
    have half : Nat.pow 2 63 = 9223372036854775808 := rfl
    omega
  · apply (exact_iff .largest ⟨[], []⟩ (Nat.pow 2 63) (Nat.pow 2 63 - 1)).1.mpr
    intro within
    omega

end MailClient.Imap.Literal
