import MailClient.Proofs.Text.Decimal
import MailClient.Proofs.Text.Utf8
import MailClient.Text.Blank

/-! Texts without blanks, by themselves and between spaces, and texts without line ends. -/
namespace MailClient.Text

def IsSolid (s : String) : Prop := ∀ c ∈ s.toList, isBlank c = false

instance (s : String) : Decidable (IsSolid s) :=
  decidable_of_iff (s.toList.any isBlank = false) (by simp [IsSolid])

variable {w s : String}

theorem splitBlanks_append {cs : List Char} (h : ∀ c ∈ cs, isBlank c = false)
    (word rest : List Char) :
    splitBlanks word (cs ++ rest) = splitBlanks (cs.reverse ++ word) rest := by
  induction cs generalizing word with
  | nil => rfl
  | cons c cs ih =>
    obtain ⟨hc, hcs⟩ := List.forall_mem_cons.mp h
    rw [List.cons_append, splitBlanks, hc, if_neg (by simp), ih hcs]
    simp

/-- A word ends at a space. -/
theorem words_spaced (hw : IsSolid w) (hne : w ≠ "") (s : String) :
    words (w ++ " " ++ s) = w :: words s := by
  have nonempty : w.toList.reverse.isEmpty = false := by simpa using hne
  have spaced : (w ++ " " ++ s).toList = w.toList ++ ' ' :: s.toList := by simp
  unfold words
  rw [spaced, splitBlanks_append hw, List.append_nil, splitBlanks, if_pos (by decide), nonempty]
  simp

theorem words_solid (hw : IsSolid w) : words w = if w = "" then [] else [w] := by
  have whole := splitBlanks_append hw [] []
  rw [List.append_nil, List.append_nil] at whole
  unfold words
  rw [whole, splitBlanks]
  by_cases he : w = ""
  · simp [he]
  · simp [he]

theorem solid_of_mem_splitBlanks {word cs w : List Char} (hw : ∀ c ∈ word, isBlank c = false)
    (h : w ∈ splitBlanks word cs) : ∀ c ∈ w, isBlank c = false := by
  induction cs generalizing word with
  | nil =>
    rw [splitBlanks] at h
    split at h
    · cases h
    · rw [List.mem_singleton.mp h]
      simpa using hw
  | cons c cs ih =>
    rw [splitBlanks] at h
    split at h
    · split at h
      · exact ih (by simp) h
      · rcases List.mem_cons.mp h with rfl | h
        · simpa using hw
        · exact ih (by simp) h
    next solid => exact ih (List.forall_mem_cons.mpr ⟨by simpa using solid, hw⟩) h

theorem isSolid_of_mem_words (h : w ∈ words s) : IsSolid w := by
  obtain ⟨cs, hc, rfl⟩ := List.mem_map.mp h
  rw [IsSolid, String.toList_ofList]
  exact solid_of_mem_splitBlanks (by simp) hc

theorem dropWhile_solid {cs : List Char} (h : ∀ c ∈ cs, isBlank c = false) :
    cs.dropWhile isBlank = cs := by
  cases cs with
  | nil => rfl
  | cons c cs => rw [List.dropWhile_cons, h c (List.mem_cons_self ..), if_neg (by simp)]

theorem trim_solid (h : IsSolid s) : trim s = s := by
  unfold trim dropEndWhile
  rw [dropWhile_solid h, dropWhile_solid fun c hc => h c (List.mem_reverse.mp hc)]
  simp

/-! ### Lines -/

def IsLine (s : String) : Prop := ∀ c ∈ s.toList, c ≠ '\r' ∧ c ≠ '\n'

instance (s : String) : Decidable (IsLine s) :=
  decidable_of_iff (s.toList.all (fun c => c != '\r' && c != '\n') = true) (by simp [IsLine])

theorem IsSolid.isLine (h : IsSolid s) : IsLine s := by
  intro c hc
  have solid := h c hc
  constructor <;>
  · rintro rfl
    revert solid
    decide

theorem isLine_append : IsLine (w ++ s) ↔ IsLine w ∧ IsLine s := by
  unfold IsLine
  rw [String.toList_append]
  exact List.forall_mem_append

/-- The octets of a line are free of line ends, as its characters are. -/
theorem IsLine.octets (h : IsLine s) {b : UInt8} (hb : b ∈ Bytes.ofText s) :
    b ≠ Bytes.cr ∧ b ≠ Bytes.lf := by
  constructor
  · rintro rfl
    have cr : '\r' ∈ s.toList := (Utf8.octet_mem_ofText_iff (by decide)).mp hb
    exact (h _ cr).1 rfl
  · rintro rfl
    have lf : '\n' ∈ s.toList := (Utf8.octet_mem_ofText_iff (by decide)).mp hb
    exact (h _ lf).2 rfl

end MailClient.Text
