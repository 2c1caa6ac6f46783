import MailClient.Base64
import MailClient.Proofs.Text.Decimal
import MailClient.Proofs.Text.Words

/-! Texts in the base64 alphabet. They have no blanks, so a protocol can put them in its lines, and
none that is encoded can be taken for the sign of an empty text. -/
namespace MailClient.Base64

def isSymbol (c : Char) : Bool := c.isAlphanum || c == '+' || c == '/' || c == '='

theorem isSymbol_symbol (v : Nat) : isSymbol (latin1 (symbol v)) = true := by
  by_cases hv : v < 63
  · have all : ∀ v < 63, isSymbol (latin1 (symbol v)) = true := by decide +kernel
    exact all v hv
  · have last : symbol v = octet '/' := by
      unfold symbol
      rw [if_neg (by omega), if_neg (by omega), if_neg (by omega), if_neg (by omega)]
    rw [last]
    decide

theorem isSymbol_of_mem_encode {bs : Bytes} {b : UInt8} (h : b ∈ encode bs) :
    isSymbol (latin1 b) = true := by
  have padding : isSymbol (latin1 pad) = true := by decide
  fun_induction encode bs with
  | case1 x y z rest ih =>
    rcases List.mem_cons.mp h with rfl | h
    · exact isSymbol_symbol _
    rcases List.mem_cons.mp h with rfl | h
    · exact isSymbol_symbol _
    rcases List.mem_cons.mp h with rfl | h
    · exact isSymbol_symbol _
    rcases List.mem_cons.mp h with rfl | h
    · exact isSymbol_symbol _
    exact ih h
  | case2 x y =>
    simp only [List.mem_cons, List.not_mem_nil, or_false] at h
    rcases h with rfl | rfl | rfl | rfl
    · exact isSymbol_symbol _
    · exact isSymbol_symbol _
    · exact isSymbol_symbol _
    · exact padding
  | case3 x =>
    simp only [List.mem_cons, List.not_mem_nil, or_false] at h
    rcases h with rfl | rfl | rfl | rfl
    · exact isSymbol_symbol _
    · exact isSymbol_symbol _
    · exact padding
    · exact padding
  | case4 => cases h

/-- Symbols are visible ASCII characters. -/
theorem isSymbol_range {c : Char} (h : isSymbol c = true) : 0x20 < c.toNat ∧ c.toNat < 0x7F := by
  have value : c.toNat = c.val.toNat := rfl
  have upper : c.isUpper = decide ('A'.val ≤ c.val ∧ c.val ≤ 'Z'.val) := rfl
  have lower : c.isLower = (decide ('a'.val ≤ c.val) && decide (c.val ≤ 'z'.val)) := rfl
  have alpha : c.isAlpha = (c.isUpper || c.isLower) := rfl
  simp only [isSymbol, Bool.or_eq_true, beq_iff_eq, Char.isAlphanum, alpha, upper, lower,
    Char.isDigit, Bool.and_eq_true, decide_eq_true_eq, UInt32.le_iff_toNat_le, ge_iff_le] at h
  have letters : 'A'.val.toNat = 65 ∧ 'Z'.val.toNat = 90 ∧ 'a'.val.toNat = 97 ∧
    'z'.val.toNat = 122 ∧ '0'.val.toNat = 48 ∧ '9'.val.toNat = 57 := by decide
  rcases h with ((((h | h) | h) | rfl) | rfl) | rfl
  · omega
  · omega
  · omega
  all_goals decide

def IsText (s : String) : Prop := ∀ c ∈ s.toList, isSymbol c = true

instance (s : String) : Decidable (IsText s) :=
  decidable_of_iff (s.toList.all isSymbol = true) List.all_eq_true

theorem isText_encodeText (bs : Bytes) : IsText (encodeText bs) := by
  intro c hc
  unfold encodeText at hc
  rw [String.toList_ofList] at hc
  obtain ⟨b, hb, rfl⟩ := List.mem_map.mp hc
  exact isSymbol_of_mem_encode hb

/-- Encodings that are not empty have four symbols or more. -/
theorem encodeText_ne_pad (bs : Bytes) : encodeText bs ≠ "=" := by
  intro h
  have one := congrArg (fun s : String => s.toList.length) h
  simp only [encodeText, String.toList_ofList, List.length_map] at one
  unfold encode at one
  split at one <;> simp at one

namespace IsText

variable {s : String}

theorem ascii (h : IsText s) : ∀ c ∈ s.toList, c.toNat < 128 :=
  fun c hc => Nat.lt_trans (isSymbol_range (h c hc)).2 (by decide)

theorem isSolid (h : IsText s) : Text.IsSolid s := by
  intro c hc
  obtain ⟨above, below⟩ := isSymbol_range (h c hc)
  simp only [Text.isBlank, Bool.or_eq_false_iff, Bool.and_eq_false_iff, decide_eq_false_iff_not,
    beq_eq_false_iff_ne]
  omega

theorem length_ofText (h : IsText s) : (Bytes.ofText s).length = s.length := by
  rw [Text.ofText_of_ascii h.ascii, List.length_map, String.length_toList]

end IsText
end MailClient.Base64
