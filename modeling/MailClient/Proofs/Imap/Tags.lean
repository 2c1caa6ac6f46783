import Mathlib.Data.Finset.Card
import MailClient.Imap.Connection
import MailClient.Proofs.Text.Decimal

/-! The search for a tag that is free. The counter comes back to a tag only after all the others,
so the search ends while fewer tags are in use than the counter has. -/
namespace MailClient.Imap

namespace TagCounter

/-- The search as a loop that nothing bounds. A tag in use is passed over, and the first one that
is free is drawn. -/
inductive Search (inUse : List Tag) : TagCounter → List Tag → Tag → TagCounter → Prop where
  | drawn {c} : c.tag ∉ inUse → Search inUse c [] c.tag c.advance
  | passed {c tags tag c'} : c.tag ∈ inUse → Search inUse c.advance tags tag c' →
      Search inUse c (c.tag :: tags) tag c'

variable {inUse tags : List Tag} {tag : Tag} {c c' : TagCounter} {n tries : Nat}

/-! ### The tags of a counter -/

theorem toList_tag (c : TagCounter) :
    c.tag.text.toList = c.lead :: (Text.padded 4 c.count.toNat).toList := by
  simp [TagCounter.tag]

/-- Numbers of more than four digits are not padded, and still no two tags are written alike. -/
theorem tag_injective : Function.Injective TagCounter.tag := by
  intro c c' h
  have texts := congrArg (fun tag : Tag => tag.text.toList) h
  rw [toList_tag, toList_tag] at texts
  obtain ⟨lead, digits⟩ := List.cons_eq_cons.mp texts
  have count := UInt32.toNat_inj.mp (Text.padded_inj (String.toList_inj.mp digits))
  cases c
  cases c'
  exact congr (congrArg TagCounter.mk lead) count

theorem iterate_advance (n : Nat) (c : TagCounter) : advance^[n] c = c.skip n := by
  induction n with
  | zero => simp [skip]
  | succ n ih =>
    rw [Function.iterate_succ_apply', ih]
    simp [advance, skip, UInt32.add_assoc]

/-- Between a tag and its next occurrence, the counter gives out all the others. -/
theorem injective_tags (c : TagCounter) :
    Function.Injective fun i : Fin UInt32.size => (advance^[i] c).tag := by
  intro i j h
  have counters := tag_injective h
  rw [iterate_advance, iterate_advance] at counters
  have counts : c.count + UInt32.ofNat i = c.count + UInt32.ofNat j :=
    congrArg TagCounter.count counters
  have numbers := congrArg UInt32.toNat ((UInt32.add_right_inj _).mp counts)
  rw [UInt32.toNat_ofNat_of_lt' i.isLt, UInt32.toNat_ofNat_of_lt' j.isLt] at numbers
  exact Fin.ext numbers

theorem card_tags (c : TagCounter) (h : n ≤ UInt32.size) :
    ((Finset.range n).image fun i => (advance^[i] c).tag).card = n := by
  rw [Finset.card_image_of_injOn, Finset.card_range]
  intro i hi j hj same
  have hi := Finset.mem_range.mp hi
  have hj := Finset.mem_range.mp hj
  have equal := @injective_tags c ⟨i, by omega⟩ ⟨j, by omega⟩ same
  exact Fin.mk.inj equal

/-- Of more tags than are in use, one is free. -/
theorem exists_free (c : TagCounter) (few : inUse.toFinset.card < UInt32.size) :
    ∃ n ≤ inUse.toFinset.card, (advance^[n] c).tag ∉ inUse := by
  have more := card_tags c (Nat.succ_le_of_lt few)
  obtain ⟨tag, hgiven, hfree⟩ := Finset.exists_mem_notMem_of_card_lt_card
    (Nat.lt_of_lt_of_eq (Nat.lt_succ_self _) more.symm)
  obtain ⟨n, hn, rfl⟩ := Finset.mem_image.mp hgiven
  refine ⟨n, Nat.le_of_lt_succ (Finset.mem_range.mp hn), ?_⟩
  intro used
  exact hfree (List.mem_toFinset.mpr used)

/-! ### The search -/

/-- A search comes to an end at a free tag, if not before. -/
theorem search_of_free (h : (advance^[n] c).tag ∉ inUse) :
    ∃ tags tag c', Search inUse c tags tag c' ∧ tags.length ≤ n := by
  induction n generalizing c with
  | zero => exact ⟨[], c.tag, c.advance, .drawn h, Nat.le_refl 0⟩
  | succ n ih =>
    by_cases used : c.tag ∈ inUse
    · rw [Function.iterate_succ_apply] at h
      obtain ⟨tags, tag, c', search, short⟩ := ih h
      exact ⟨c.tag :: tags, tag, c', .passed used search, Nat.succ_le_succ short⟩
    · exact ⟨[], c.tag, c.advance, .drawn used, Nat.zero_le _⟩

theorem Search.used (h : Search inUse c tags tag c') : ∀ t ∈ tags, t ∈ inUse := by
  induction h with
  | drawn => simp
  | passed used _ ih => exact List.forall_mem_cons.mpr ⟨used, ih⟩

theorem Search.free (h : Search inUse c tags tag c') : tag ∉ inUse := by
  induction h with
  | drawn free => exact free
  | passed _ _ ih => exact ih

/-- With enough tries, the bound on the tries does not show. -/
theorem Search.free_eq (h : Search inUse c tags tag c') (enough : tags.length ≤ tries) :
    c.free inUse tries = (tag, c') := by
  induction h generalizing tries with
  | @drawn c free =>
    cases tries with
    | zero => rfl
    | succ tries => simp [TagCounter.free, free]
  | @passed c tags tag c' used _ ih =>
    cases tries with
    | zero => cases enough
    | succ tries =>
      simp only [TagCounter.free, List.contains_iff_mem, used, if_true]
      exact ih (Nat.le_of_succ_le_succ enough)

end TagCounter

/-- While fewer than 2^32 tags are outstanding, the search for the next one ends with a tag that is
not outstanding, wherever the counter stands, and has passed over outstanding tags only. The counter
repeats no tag within 2^32 steps. -/
theorem Connection.search_nextTag (c : Connection)
    (few : c.outstanding.toFinset.card < UInt32.size) :
    (∃ tags, TagCounter.Search c.outstanding c.tags tags c.nextTag.1 c.nextTag.2.tags ∧
      (∀ tag ∈ tags, tag ∈ c.outstanding) ∧ tags.length ≤ c.outstanding.toFinset.card) ∧
    c.nextTag.1 ∉ c.outstanding ∧
    ∀ counter : TagCounter,
      Function.Injective fun i : Fin UInt32.size => (TagCounter.advance^[i] counter).tag := by
  obtain ⟨n, hn, free⟩ := TagCounter.exists_free c.tags few
  obtain ⟨tags, tag, counter, search, short⟩ := TagCounter.search_of_free free
  have bounded : tags.length ≤ c.outstanding.toFinset.card := Nat.le_trans short hn
  have next : c.tags.next c.outstanding = (tag, counter) :=
    search.free_eq (Nat.le_trans bounded (List.toFinset_card_le _))
  have drawn : c.nextTag = (tag, { c with tags := counter }) := by
    unfold nextTag
    rw [next]
  rw [drawn]
  exact ⟨⟨tags, search, search.used, bounded⟩, search.free, TagCounter.injective_tags⟩

/-- Two commands still run when the counter wraps: both of their tags are passed over. -/
theorem Connection.search_nextTag_wrapped :
    let c : Connection := { fresh (.start [] .unlimited) { host := "mail" } with
      tags := ⟨'A', 4294967295⟩, outstanding := [⟨"A0000"⟩, ⟨"A4294967295"⟩] }
    c.outstanding.toFinset.card < UInt32.size ∧ c.nextTag.1 = ⟨"A0001"⟩ ∧
      c.nextTag.1 ∉ c.outstanding := by
  intro c
  have few : c.outstanding.toFinset.card < UInt32.size :=
    Nat.lt_of_le_of_lt (List.toFinset_card_le _) (by decide)
  exact ⟨few, by decide +kernel, (search_nextTag c few).2.1⟩

end MailClient.Imap
