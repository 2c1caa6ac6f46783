import Mathlib.Tactic.SplitIfs
import MailClient.Proofs.Text.Decimal
import MailClient.Text.Utf8

/-! What has been encoded is decoded again, whatever octets follow it, and nothing else is
decoded. -/
namespace MailClient.Text.Utf8

theorem toNat_ofNat_of_lt {n : Nat} (h : n < 256) : (UInt8.ofNat n).toNat = n := by
  rw [UInt8.toNat_ofNat']
  exact Nat.mod_eq_of_lt h

theorem continues_ofNat {low high : UInt8} {n : Nat} (hl : low.toNat ≤ n) (hh : n ≤ high.toNat) :
    continues low high (UInt8.ofNat n) = true := by
  have hn : n < 256 := Nat.lt_of_le_of_lt hh high.toNat_lt
  simp only [continues, Bool.and_eq_true, decide_eq_true_eq, UInt8.le_iff_toNat_le,
    toNat_ofNat_of_lt hn]
  exact ⟨hl, hh⟩

/-- An octet that continues a character adds six bits to its value. -/
theorem payload_ofNat {n : Nat} (h : n < 64) : payload (UInt8.ofNat (n + 128)) = n := by
  rw [payload, toNat_ofNat_of_lt (by omega)]
  omega

theorem last_encoded {value n : Nat} (rest : Bytes) (h : n < 64) :
    last value (UInt8.ofNat (n + 128) :: rest) = .char (Char.ofNat (value * 64 + n)) rest := by
  have hc : continues 0x80 0xBF (UInt8.ofNat (n + 128)) = true :=
    continues_ofNat (Nat.le_add_left _ _) (show n + 128 ≤ 191 by omega)
  rw [last, if_pos hc, payload_ofNat h]

theorem second_encoded {low high : UInt8} {value n : Nat} (more : Nat → Bytes → Front)
    (rest : Bytes) (h : n < 64) (hl : low.toNat ≤ n + 128) (hh : n + 128 ≤ high.toNat) :
    second low high value more (UInt8.ofNat (n + 128) :: rest) = more (value * 64 + n) rest := by
  rw [second, if_pos (continues_ofNat hl hh), payload_ofNat h]

theorem third_encoded {value n : Nat} (rest : Bytes) (h : n < 64) :
    third value (UInt8.ofNat (n + 128) :: rest) = last (value * 64 + n) rest := by
  have hc : continues 0x80 0xBF (UInt8.ofNat (n + 128)) = true :=
    continues_ofNat (Nat.le_add_left _ _) (show n + 128 ≤ 191 by omega)
  rw [third, if_pos hc, payload_ofNat h]

/-- Surrogates and what lies above the last plane are no characters. -/
theorem valid (c : Char) : c.toNat < 0xD800 ∨ 0xDFFF < c.toNat ∧ c.toNat < 0x110000 := c.valid

theorem front_two (c : Char) (rest : Bytes) (h : 0x80 ≤ c.toNat) (h' : c.toNat < 0x800) :
    front (UInt8.ofNat (c.toNat / 64 + 0xC0)) (UInt8.ofNat (c.toNat % 64 + 128) :: rest) =
      .char c rest := by
  have hb := toNat_ofNat_of_lt (n := c.toNat / 64 + 0xC0) (by omega)
  have hv : (c.toNat / 64 + 0xC0 - 0xC0) * 64 + c.toNat % 64 = c.toNat := by omega
  simp only [front, hb]
  rw [if_neg (by omega), if_neg (by omega), if_pos (by omega), last_encoded _ (by omega), hv,
    Char.ofNat_toNat]

theorem front_three (c : Char) (rest : Bytes) (h : 0x800 ≤ c.toNat) (h' : c.toNat < 0x10000) :
    front (UInt8.ofNat (c.toNat / 4096 + 0xE0)) (UInt8.ofNat (c.toNat / 64 % 64 + 128) ::
      UInt8.ofNat (c.toNat % 64 + 128) :: rest) = .char c rest := by
  have hb := toNat_ofNat_of_lt (n := c.toNat / 4096 + 0xE0) (by omega)
  have valid := valid c
  have value {n : Nat} (hn : n = c.toNat / 64) :
      last n (UInt8.ofNat (c.toNat % 64 + 128) :: rest) = .char c rest := by
    have hv : n * 64 + c.toNat % 64 = c.toNat := by omega
    rw [last_encoded _ (by omega), hv, Char.ofNat_toNat]
  simp only [front, hb]
  rw [if_neg (by omega), if_neg (by omega), if_neg (by omega)]
  split_ifs
  · rw [second_encoded _ _ (by omega) (show 160 ≤ _ by omega) (show _ ≤ 191 by omega)]
    exact value (by omega)
  · rw [second_encoded _ _ (by omega) (show 128 ≤ _ by omega) (show _ ≤ 159 by omega)]
    exact value (by omega)
  · rw [second_encoded _ _ (by omega) (show 128 ≤ _ by omega) (show _ ≤ 191 by omega)]
    exact value (by omega)
  all_goals omega

theorem front_four (c : Char) (rest : Bytes) (h : 0x10000 ≤ c.toNat) :
    front (UInt8.ofNat (c.toNat / 262144 + 0xF0)) (UInt8.ofNat (c.toNat / 4096 % 64 + 128) ::
      UInt8.ofNat (c.toNat / 64 % 64 + 128) :: UInt8.ofNat (c.toNat % 64 + 128) :: rest) =
      .char c rest := by
  have valid := valid c
  have hb := toNat_ofNat_of_lt (n := c.toNat / 262144 + 0xF0) (by omega)
  have value {n : Nat} (hn : n = c.toNat / 4096) :
      third n (UInt8.ofNat (c.toNat / 64 % 64 + 128) :: UInt8.ofNat (c.toNat % 64 + 128) :: rest) =
        .char c rest := by
    have hv : (n * 64 + c.toNat / 64 % 64) * 64 + c.toNat % 64 = c.toNat := by omega
    rw [third_encoded _ (by omega), last_encoded _ (by omega), hv, Char.ofNat_toNat]
  simp only [front, hb]
  rw [if_neg (by omega), if_neg (by omega), if_neg (by omega), if_neg (by omega),
    if_neg (by omega), if_neg (by omega)]
  split_ifs
  · rw [second_encoded _ _ (by omega) (show 144 ≤ _ by omega) (show _ ≤ 191 by omega)]
    exact value (by omega)
  · rw [second_encoded _ _ (by omega) (show 128 ≤ _ by omega) (show _ ≤ 191 by omega)]
    exact value (by omega)
  · rw [second_encoded _ _ (by omega) (show 128 ≤ _ by omega) (show _ ≤ 143 by omega)]
    exact value (by omega)
  all_goals omega

/-- The octets of a character are read as that character, and no more. -/
theorem front_encoded (c : Char) (rest : Bytes) :
    ∃ b bs, String.utf8EncodeChar c = b :: bs ∧ front b (bs ++ rest) = .char c rest := by
  have valid := valid c
  unfold String.utf8EncodeChar
  simp only [show c.val.toNat = c.toNat from rfl]
  split_ifs with h₁ h₂ h₃
  · refine ⟨_, _, rfl, ?_⟩
    simp only [front, toNat_ofNat_of_lt (show c.toNat < 256 by omega)]
    rw [if_pos (by omega), Char.ofNat_toNat]
    rfl
  · refine ⟨_, _, rfl, ?_⟩
    rw [Nat.mod_eq_of_lt (show c.toNat / 64 < 32 by omega)]
    exact front_two c rest (by omega) (by omega)
  · refine ⟨_, _, rfl, ?_⟩
    rw [Nat.mod_eq_of_lt (show c.toNat / 4096 < 16 by omega)]
    exact front_three c rest (by omega) (by omega)
  · refine ⟨_, _, rfl, ?_⟩
    rw [Nat.mod_eq_of_lt (show c.toNat / 262144 < 8 by omega)]
    exact front_four c rest (by omega)

/-! ### Characters that are read -/

theorem toNat_ofNat_of_valid {n : Nat} (h : n < 0xD800 ∨ 0xDFFF < n ∧ n < 0x110000) :
    (Char.ofNat n).toNat = n := by
  unfold Char.ofNat
  rw [dif_pos h]
  rfl

theorem eq_ofNat_of_continues {low high b : UInt8} (hl : 0x80 ≤ low.toNat) (hh : high.toNat ≤ 0xBF)
    (h : continues low high b = true) : ∃ n < 64, b = UInt8.ofNat (n + 128) ∧ payload b = n ∧
      low.toNat ≤ n + 128 ∧ n + 128 ≤ high.toNat := by
  simp only [continues, Bool.and_eq_true, decide_eq_true_eq, UInt8.le_iff_toNat_le] at h
  refine ⟨b.toNat - 128, by omega, ?_, ?_, by omega, by omega⟩
  · rw [Nat.sub_add_cancel (by omega), UInt8.ofNat_toNat]
  · rw [payload]
    omega

theorem last_eq_char {value : Nat} {bs rest : Bytes} {c : Char} (h : last value bs = .char c rest) :
    ∃ n < 64, bs = UInt8.ofNat (n + 128) :: rest ∧ c = Char.ofNat (value * 64 + n) := by
  unfold last at h
  split at h
  · split_ifs at h with hc
    cases h
    obtain ⟨n, hn, rfl, hp, -⟩ := eq_ofNat_of_continues (by decide) (by decide) hc
    exact ⟨n, hn, rfl, by rw [hp]⟩
  · cases h

theorem third_eq_char {value : Nat} {bs rest : Bytes} {c : Char}
    (h : third value bs = .char c rest) :
    ∃ n < 64, ∃ bs', bs = UInt8.ofNat (n + 128) :: bs' ∧
      last (value * 64 + n) bs' = .char c rest := by
  unfold third at h
  split at h
  · split_ifs at h with hc
    obtain ⟨n, hn, rfl, hp, -⟩ := eq_ofNat_of_continues (by decide) (by decide) hc
    exact ⟨n, hn, _, rfl, hp ▸ h⟩
  · cases h

theorem second_eq_char {low high : UInt8} {value : Nat} {more : Nat → Bytes → Front}
    {bs rest : Bytes} {c : Char} (hl : 0x80 ≤ low.toNat) (hh : high.toNat ≤ 0xBF)
    (h : second low high value more bs = .char c rest) :
    ∃ n < 64, ∃ bs', bs = UInt8.ofNat (n + 128) :: bs' ∧ low.toNat ≤ n + 128 ∧
      n + 128 ≤ high.toNat ∧ more (value * 64 + n) bs' = .char c rest := by
  unfold second at h
  split at h
  · split_ifs at h with hc
    obtain ⟨n, hn, rfl, hp, lower, upper⟩ := eq_ofNat_of_continues hl hh hc
    exact ⟨n, hn, _, rfl, lower, upper, hp ▸ h⟩
  · cases h

theorem encoded_two {n : Nat} (h : 0x80 ≤ n) (h' : n < 0x800) :
    String.utf8EncodeChar (Char.ofNat n) =
      [UInt8.ofNat (n / 64 + 0xC0), UInt8.ofNat (n % 64 + 128)] := by
  have value := toNat_ofNat_of_valid (n := n) (by omega)
  unfold String.utf8EncodeChar
  simp only [show (Char.ofNat n).val.toNat = n from value]
  rw [if_neg (by omega), if_pos (by omega), Nat.mod_eq_of_lt (show n / 64 < 32 by omega)]

theorem encoded_three {n : Nat} (h : 0x800 ≤ n) (h' : n < 0x10000)
    (valid : n < 0xD800 ∨ 0xDFFF < n) : String.utf8EncodeChar (Char.ofNat n) =
      [UInt8.ofNat (n / 4096 + 0xE0), UInt8.ofNat (n / 64 % 64 + 128),
        UInt8.ofNat (n % 64 + 128)] := by
  have value := toNat_ofNat_of_valid (n := n) (by omega)
  unfold String.utf8EncodeChar
  simp only [show (Char.ofNat n).val.toNat = n from value]
  rw [if_neg (by omega), if_neg (by omega), if_pos (by omega),
    Nat.mod_eq_of_lt (show n / 4096 < 16 by omega)]

theorem encoded_four {n : Nat} (h : 0x10000 ≤ n) (h' : n < 0x110000) :
    String.utf8EncodeChar (Char.ofNat n) =
      [UInt8.ofNat (n / 262144 + 0xF0), UInt8.ofNat (n / 4096 % 64 + 128),
        UInt8.ofNat (n / 64 % 64 + 128), UInt8.ofNat (n % 64 + 128)] := by
  have value := toNat_ofNat_of_valid (n := n) (by omega)
  unfold String.utf8EncodeChar
  simp only [show (Char.ofNat n).val.toNat = n from value]
  rw [if_neg (by omega), if_neg (by omega), if_neg (by omega),
    Nat.mod_eq_of_lt (show n / 262144 < 8 by omega)]

/-- A character of two octets, by its lead. -/
theorem lead_two {b : UInt8} {bs rest : Bytes} {c : Char} (h : 0xC2 ≤ b.toNat)
    (h' : b.toNat < 0xE0) (hc : last (b.toNat - 0xC0) bs = .char c rest) :
    b :: bs = String.utf8EncodeChar c ++ rest := by
  obtain ⟨n, hn, rfl, rfl⟩ := last_eq_char hc
  rw [encoded_two (by omega) (by omega),
    show ((b.toNat - 0xC0) * 64 + n) / 64 + 0xC0 = b.toNat by omega,
    show ((b.toNat - 0xC0) * 64 + n) % 64 = n by omega, UInt8.ofNat_toNat]
  rfl

theorem lead_three {b low high : UInt8} {bs rest : Bytes} {c : Char} (h : 0xE0 ≤ b.toNat)
    (h' : b.toNat < 0xF0) (hl : 0x80 ≤ low.toNat) (hh : high.toNat ≤ 0xBF)
    (small : b.toNat = 0xE0 → 0xA0 ≤ low.toNat) (valid : b.toNat = 0xED → high.toNat ≤ 0x9F)
    (hc : second low high (b.toNat - 0xE0) last bs = .char c rest) :
    b :: bs = String.utf8EncodeChar c ++ rest := by
  obtain ⟨n, hn, bs', rfl, lower, upper, hc⟩ := second_eq_char hl hh hc
  obtain ⟨m, hm, rfl, rfl⟩ := last_eq_char hc
  generalize hv : ((b.toNat - 0xE0) * 64 + n) * 64 + m = v
  rw [encoded_three (by omega) (by omega) (by omega), show v / 4096 + 0xE0 = b.toNat by omega,
    show v / 64 % 64 = n by omega, show v % 64 = m by omega, UInt8.ofNat_toNat]
  rfl

theorem lead_four {b low high : UInt8} {bs rest : Bytes} {c : Char} (h : 0xF0 ≤ b.toNat)
    (h' : b.toNat ≤ 0xF4) (hl : 0x80 ≤ low.toNat) (hh : high.toNat ≤ 0xBF)
    (small : b.toNat = 0xF0 → 0x90 ≤ low.toNat) (large : b.toNat = 0xF4 → high.toNat ≤ 0x8F)
    (hc : second low high (b.toNat - 0xF0) third bs = .char c rest) :
    b :: bs = String.utf8EncodeChar c ++ rest := by
  obtain ⟨n, hn, bs₁, rfl, lower, upper, hc⟩ := second_eq_char hl hh hc
  obtain ⟨m, hm, bs₂, rfl, ended⟩ := third_eq_char hc
  obtain ⟨k, hk, rfl, rfl⟩ := last_eq_char ended
  generalize hv : (((b.toNat - 0xF0) * 64 + n) * 64 + m) * 64 + k = v
  rw [encoded_four (by omega) (by omega), show v / 262144 + 0xF0 = b.toNat by omega,
    show v / 4096 % 64 = n by omega, show v / 64 % 64 = m by omega, show v % 64 = k by omega,
    UInt8.ofNat_toNat]
  rfl

/-- A character is read from its own octets. -/
theorem eq_encoded_of_front {b : UInt8} {bs rest : Bytes} {c : Char}
    (h : front b bs = .char c rest) : b :: bs = String.utf8EncodeChar c ++ rest := by
  unfold front at h
  dsimp only at h
  split_ifs at h with h₁ h₂ h₃ h₄ h₅ h₆ h₇ h₈ h₉
  · cases h
    have value := toNat_ofNat_of_valid (n := b.toNat) (by omega)
    have same : octet (Char.ofNat b.toNat) = b := by
      rw [octet, value]
      exact UInt8.ofNat_toNat
    rw [encoded_of_ascii (Nat.lt_of_le_of_lt (Nat.le_of_eq value) h₁), same]
    rfl
  · exact lead_two (by omega) h₃ h
  · refine lead_three (by omega) (by omega) ?_ ?_ ?_ ?_ (by simpa [h₄] using h)
    all_goals simp [h₄]
  · refine lead_three (by omega) (by omega) ?_ ?_ ?_ ?_ (by simpa [h₅] using h)
    all_goals simp [h₅]
  · exact lead_three (by omega) h₆ (by decide) (by decide) (by omega) (by omega) h
  · refine lead_four (by omega) (by omega) ?_ ?_ ?_ ?_ (by simpa [h₇] using h)
    all_goals simp [h₇]
  · exact lead_four (by omega) (by omega) (by decide) (by decide) (by omega) (by omega) h
  · refine lead_four (by omega) (by omega) ?_ ?_ ?_ ?_ (by simpa [h₉] using h)
    all_goals simp [h₉]

theorem encoded_of_decodeFrom {index : Nat} {before cs : List Char} {bs : Bytes}
    (h : decodeFrom index before bs = .ok cs) :
    ∃ cs', cs = before.reverse ++ cs' ∧ bs = cs'.flatMap String.utf8EncodeChar := by
  fun_induction decodeFrom index before bs with
  | case1 =>
    cases h
    exact ⟨[], by simp, rfl⟩
  | case2 index before b rest c rest' hf _ ih =>
    obtain ⟨cs', rfl, rfl⟩ := ih h
    exact ⟨c :: cs', by simp, eq_encoded_of_front hf⟩
  | case3 => cases h
  | case4 => cases h

/-- What is decoded is the form of a text. -/
theorem eq_ofText_of_decode {bs : Bytes} {s : String} (h : decode bs = .ok s) :
    bs = Bytes.ofText s := by
  unfold decode at h
  cases hd : decodeFrom 0 [] bs with
  | error flaw => simp [hd, Except.map] at h
  | ok cs =>
    obtain ⟨cs', rfl, rfl⟩ := encoded_of_decodeFrom hd
    simp only [hd, Except.map, Except.ok.injEq] at h
    rw [← h]
    simp [Bytes.ofText]

/-! ### Texts -/

theorem replaceFrom_encoded (before cs : List Char) :
    replaceFrom before (cs.flatMap String.utf8EncodeChar) = before.reverse ++ cs := by
  induction cs generalizing before with
  | nil => simp [replaceFrom]
  | cons c cs ih =>
    obtain ⟨b, bs, hc, hf⟩ := front_encoded c (cs.flatMap String.utf8EncodeChar)
    rw [List.flatMap_cons, hc, List.cons_append, replaceFrom]
    split
    next c' rest h =>
      rw [hf] at h
      cases h
      rw [ih]
      simp
    next h => simp [hf] at h
    next h => simp [hf] at h

theorem decodeFrom_encoded (index : Nat) (before cs : List Char) :
    decodeFrom index before (cs.flatMap String.utf8EncodeChar) = .ok (before.reverse ++ cs) := by
  induction cs generalizing index before with
  | nil => simp [decodeFrom]
  | cons c cs ih =>
    obtain ⟨b, bs, hc, hf⟩ := front_encoded c (cs.flatMap String.utf8EncodeChar)
    rw [List.flatMap_cons, hc, List.cons_append, decodeFrom]
    split
    next c' rest h =>
      rw [hf] at h
      cases h
      rw [ih]
      simp
    next h => simp [hf] at h
    next h => simp [hf] at h

@[simp] theorem text_ofText (s : String) : text (Bytes.ofText s) = s := by
  rw [text, Bytes.ofText, replaceFrom_encoded]
  simp

@[simp] theorem decode_ofText (s : String) : decode (Bytes.ofText s) = .ok s := by
  rw [decode, Bytes.ofText, decodeFrom_encoded]
  simp [Except.map]

@[simp] theorem text?_ofText (s : String) : text? (Bytes.ofText s) = some s := by
  rw [text?, decode_ofText]
  rfl

theorem ofText_ne_nil {s : String} (h : s ≠ "") : Bytes.ofText s ≠ [] := by
  intro he
  apply h
  rw [← text_ofText s, he]
  exact text_ofText ""

/-- Outside of ASCII a character has only octets with the highest bit set. -/
theorem le_of_mem_encoded {c : Char} (h : 128 ≤ c.toNat) {b : UInt8}
    (hb : b ∈ String.utf8EncodeChar c) : 128 ≤ b.toNat := by
  have high {n m k : Nat} (hm : 0 < m) (hk : 128 ≤ k) (hmk : m + k ≤ 256) :
      128 ≤ (UInt8.ofNat (n % m + k)).toNat := by
    have := Nat.mod_lt n hm
    rw [toNat_ofNat_of_lt (by omega)]
    omega
  unfold String.utf8EncodeChar at hb
  simp only [show c.val.toNat = c.toNat from rfl] at hb
  split_ifs at hb with h₁ h₂ h₃ <;> simp only [List.mem_cons, List.not_mem_nil, or_false] at hb
  · omega
  · rcases hb with rfl | rfl <;> exact high (by decide) (by decide) (by decide)
  · rcases hb with rfl | rfl | rfl <;> exact high (by decide) (by decide) (by decide)
  · rcases hb with rfl | rfl | rfl | rfl <;> exact high (by decide) (by decide) (by decide)

/-- An ASCII character is not found among the octets of another character. -/
theorem ne_of_mem_encoded {c d : Char} (hd : d.toNat < 128) (hc : c ≠ d) {b : UInt8}
    (hb : b ∈ String.utf8EncodeChar c) : b ≠ octet d := by
  rintro rfl
  by_cases ascii : c.toNat < 128
  · rw [encoded_of_ascii ascii, List.mem_singleton] at hb
    have same := congrArg latin1 hb
    rw [latin1_octet hd, latin1_octet ascii] at same
    exact hc same.symm
  · have high := le_of_mem_encoded (Nat.le_of_not_lt ascii) hb
    rw [octet, Nat.toUInt8, UInt8.toNat_ofNat'] at high
    omega

/-- A text has the octet of an ASCII character where it has the character. -/
theorem octet_mem_ofText_iff {s : String} {d : Char} (hd : d.toNat < 128) :
    octet d ∈ Bytes.ofText s ↔ d ∈ s.toList := by
  constructor
  · intro hb
    obtain ⟨c, hc, hb⟩ := List.mem_flatMap.mp hb
    have same : c = d := Classical.byContradiction fun other => ne_of_mem_encoded hd other hb rfl
    exact same ▸ hc
  · intro hc
    refine List.mem_flatMap.mpr ⟨d, hc, ?_⟩
    rw [encoded_of_ascii hd]
    exact List.mem_singleton_self _

theorem ofText_append (s t : String) :
    Bytes.ofText (s ++ t) = Bytes.ofText s ++ Bytes.ofText t := by
  rw [Bytes.ofText, String.toList_append, List.flatMap_append]
  rfl

end MailClient.Text.Utf8
