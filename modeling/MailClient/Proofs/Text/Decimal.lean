import MailClient.Bytes
import MailClient.Text.Case
import MailClient.Text.Decimal

/-! Numbers written in decimal are read again, also from the octets of an ASCII text, and with zeros
in front. What is read as a number has no letters. -/
namespace MailClient.Text

theorem digitsValue_eq (n : Nat) (cs : List Char) :
    digitsValue n cs = Nat.ofDigitChars 10 cs n := by
  rw [Nat.ofDigitChars_eq_foldl, digitsValue]
  simp only [Nat.mul_comm]
  rfl

theorem natOfDigits?_toDigits {bound n : Nat} (h : n < bound) :
    natOfDigits? bound (Nat.toDigits 10 n) = some n := by
  have hd : (Nat.toDigits 10 n).all Char.isDigit = true := by
    rw [List.all_eq_true]
    intro c hc
    exact Nat.isDigit_of_mem_toDigits (by decide) (by decide) hc
  rw [natOfDigits?, hd, digitsBelow?_eq (by omega), digitsValue_eq, Nat.ofDigitChars_ten_toDigits]
  simp [h, Option.filter]

theorem isDigit_of_mem_padded {width n : Nat} {c : Char} (h : c ∈ (padded width n).toList) :
    c.isDigit = true := by
  unfold padded at h
  rw [String.toList_ofList, List.mem_append] at h
  rcases h with h | h
  · rw [List.eq_of_mem_replicate h]
    decide
  · exact Nat.isDigit_of_mem_toDigits (by decide) (by decide) h

/-- The zeros in front do not count. -/
theorem digitsValue_padded (width n : Nat) : digitsValue 0 (padded width n).toList = n := by
  have zeros : ∀ k, digitsValue 0 (List.replicate k '0') = 0 := by
    intro k
    induction k with
    | zero => rfl
    | succ k ih => exact ih
  unfold padded
  dsimp only
  generalize width - (Nat.toDigits 10 n).length = k
  calc digitsValue 0 (String.ofList (List.replicate k '0' ++ Nat.toDigits 10 n)).toList
    _ = digitsValue (digitsValue 0 (List.replicate k '0')) (Nat.toDigits 10 n) := by
      rw [String.toList_ofList]
      exact List.foldl_append
    _ = n := by rw [zeros, digitsValue_eq, Nat.ofDigitChars_ten_toDigits]

theorem padded_inj {width m n : Nat} (h : padded width m = padded width n) : m = n := by
  have values := congrArg (fun s : String => digitsValue 0 s.toList) h
  simpa only [digitsValue_padded] using values

theorem lt_of_isDigit {c : Char} (h : c.isDigit = true) : c.toNat < 128 := by
  simp only [Char.isDigit, Bool.and_eq_true, decide_eq_true_eq] at h
  have := UInt32.le_iff_toNat_le.mp h.2
  exact Nat.lt_of_le_of_lt this (by decide)

theorem encoded_of_ascii {c : Char} (h : c.toNat < 128) : String.utf8EncodeChar c = [octet c] := by
  unfold String.utf8EncodeChar
  exact if_pos (Nat.le_of_lt_succ h)

theorem latin1_octet {c : Char} (h : c.toNat < 128) : latin1 (octet c) = c := by
  have hb : (octet c).toNat = c.toNat := by
    rw [octet, Nat.toUInt8, UInt8.toNat_ofNat']
    omega
  rw [latin1, hb, Char.ofNat_toNat]

theorem ofText_of_ascii {s : String} (h : ∀ c ∈ s.toList, c.toNat < 128) :
    Bytes.ofText s = s.toList.map octet := by
  unfold Bytes.ofText
  generalize s.toList = cs at h
  induction cs with
  | nil => rfl
  | cons c cs ih =>
    obtain ⟨hc, hcs⟩ := List.forall_mem_cons.mp h
    rw [List.flatMap_cons, encoded_of_ascii hc, ih hcs]
    rfl

theorem map_latin1_ofText {s : String} (h : ∀ c ∈ s.toList, c.toNat < 128) :
    (Bytes.ofText s).map latin1 = s.toList := by
  rw [ofText_of_ascii h, List.map_map]
  conv => rhs; rw [← List.map_id s.toList]
  exact List.map_congr_left fun c hc => latin1_octet (h c hc)

theorem isDigit_of_mem_toString {n : Nat} {c : Char} (h : c ∈ (toString n).toList) :
    c.isDigit = true := by
  rw [Nat.toString_eq_repr, Nat.toList_repr] at h
  exact Nat.isDigit_of_mem_toDigits (by decide) (by decide) h

theorem map_latin1_toString (n : Nat) :
    (Bytes.ofText (toString n)).map latin1 = Nat.toDigits 10 n := by
  rw [map_latin1_ofText fun c hc => lt_of_isDigit (isDigit_of_mem_toString hc),
    Nat.toString_eq_repr,
    Nat.toList_repr]

theorem toUpper_of_isDigit {c : Char} (h : c.isDigit = true) : c.toUpper = c := by
  simp only [Char.isDigit, Bool.and_eq_true, decide_eq_true_eq] at h
  refine dif_neg fun hc => ?_
  have small : c.val.toNat ≤ 57 := UInt32.le_iff_toNat_le.mp h.2
  have large : 97 ≤ c.val.toNat := UInt32.le_iff_toNat_le.mp hc.1
  omega

theorem map_toUpper_of_natOfDigits? {bound : Nat} {cs : List Char}
    (h : (natOfDigits? bound cs).isSome = true) : cs.map Char.toUpper = cs := by
  unfold natOfDigits? at h
  split at h
  · cases h
  next hd =>
    have digits : ∀ c ∈ cs, c.isDigit = true := by simp_all
    calc cs.map Char.toUpper
      _ = cs.map id := List.map_congr_left fun c hc => toUpper_of_isDigit (digits c hc)
      _ = cs := List.map_id cs

/-- There are no letters in a number. -/
theorem upper_of_unsigned? {bound : Nat} {s : String} (h : (unsigned? bound s).isSome = true) :
    upper s = s := by
  unfold unsigned? at h
  have same : s.toList.map Char.toUpper = s.toList := by
    split at h
    next cs hs =>
      rw [hs, List.map_cons, map_toUpper_of_natOfDigits? h]
      rfl
    · exact map_toUpper_of_natOfDigits? h
  rw [upper, same, String.ofList_toList]

theorem unsigned?_eq_none_of_upper {bound : Nat} {s : String}
    (h : unsigned? bound (upper s) = none) : unsigned? bound s = none := by
  cases hn : unsigned? bound s with
  | none => rfl
  | some n =>
    rw [upper_of_unsigned? (by rw [hn]; rfl), hn] at h
    cases h

end MailClient.Text
