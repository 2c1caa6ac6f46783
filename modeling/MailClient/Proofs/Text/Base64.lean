import MailClient.Proofs.Sasl.Alphabet

/-! Decoding undoes encoding: three octets are the four values of their symbols, and one or two at
the end are the values before the padding. -/
namespace MailClient.Base64

/-! ### Symbols -/

theorem value?_symbol {v : Nat} (h : v < 64) : value? (symbol v) = some v := by
  have all : ∀ v < 64, value? (symbol v) = some v := by decide +kernel
  exact all v h

theorem symbol_ne_pad {v : Nat} (h : v < 64) : symbol v ≠ pad := by
  intro he
  have value := value?_symbol h
  rw [he, show value? pad = none by decide] at value
  cases value

theorem symbolAt_symbol {v : Nat} (h : v < 64) (offset : Nat) :
    symbolAt offset (symbol v) = .ok v := by
  simp only [symbolAt, value?_symbol h]

theorem lastSymbols_symbol {v : Nat} (h : v < 64) (start i : Nat) (bs : Bytes) :
    lastSymbols start i none (symbol v :: bs) =
      (lastSymbols start (i + 1) none bs).map fun (values, pads) => (v :: values, pads) := by
  rw [lastSymbols, if_neg (symbol_ne_pad h)]
  simp only [symbolAt_symbol h]
  cases lastSymbols start (i + 1) none bs <;> rfl

/-! ### Octets -/

theorem toUInt8_eq {n : Nat} {b : UInt8} (h : n = b.toNat) : n.toUInt8 = b := by
  rw [h]
  exact UInt8.ofNat_toNat

section
variable (a b c : UInt8)

theorem value_lt : a.toNat / 4 < 64 ∧ a.toNat % 4 * 16 + b.toNat / 16 < 64 ∧
    b.toNat % 16 * 4 + c.toNat / 64 < 64 ∧ c.toNat % 64 < 64 := by
  have := a.toNat_lt
  have := b.toNat_lt
  have := c.toNat_lt
  omega

theorem first_octet :
    (a.toNat / 4 * 4 + (a.toNat % 4 * 16 + b.toNat / 16) / 16).toUInt8 = a := by
  have := b.toNat_lt
  exact toUInt8_eq (by omega)

theorem second_octet :
    ((a.toNat % 4 * 16 + b.toNat / 16) % 16 * 16 + (b.toNat % 16 * 4 + c.toNat / 64) / 4).toUInt8 =
      b := by
  have := b.toNat_lt
  have := c.toNat_lt
  exact toUInt8_eq (by omega)

theorem third_octet : ((b.toNat % 16 * 4 + c.toNat / 64) % 4 * 64 + c.toNat % 64).toUInt8 = c := by
  have := c.toNat_lt
  exact toUInt8_eq (by omega)

end

/-! ### Encodings -/

theorem decodeLast_of_lastSymbols {start pads : Nat} {bs : Bytes} {values : List Nat}
    (h : lastSymbols start 0 none bs = .ok (values, pads)) (enough : ¬values.length < 2)
    (whole : ¬(values.length + pads) % 4 ≠ 0) :
    decodeLast start bs = lastOctets start bs values := by
  simp only [decodeLast, h, bind, Except.bind, if_neg enough, if_neg whole]

theorem decodeLast_three (a b c : UInt8) (start : Nat) :
    decodeLast start [symbol (a.toNat / 4), symbol (a.toNat % 4 * 16 + b.toNat / 16),
      symbol (b.toNat % 16 * 4 + c.toNat / 64), symbol (c.toNat % 64)] = .ok [a, b, c] := by
  obtain ⟨v, w, x, y⟩ := value_lt a b c
  have symbols : lastSymbols start 0 none [symbol (a.toNat / 4),
      symbol (a.toNat % 4 * 16 + b.toNat / 16), symbol (b.toNat % 16 * 4 + c.toNat / 64),
      symbol (c.toNat % 64)] = .ok ([a.toNat / 4, a.toNat % 4 * 16 + b.toNat / 16,
      b.toNat % 16 * 4 + c.toNat / 64, c.toNat % 64], 0) := by
    rw [lastSymbols_symbol v, lastSymbols_symbol w, lastSymbols_symbol x, lastSymbols_symbol y]
    rfl
  rw [decodeLast_of_lastSymbols symbols (by simp) (by simp), lastOctets, first_octet,
    second_octet, third_octet]

theorem decodeLast_two (a b : UInt8) (start : Nat) :
    decodeLast start [symbol (a.toNat / 4), symbol (a.toNat % 4 * 16 + b.toNat / 16),
      symbol (b.toNat % 16 * 4), pad] = .ok [a, b] := by
  obtain ⟨v, w, x, -⟩ := value_lt a b 0
  have second := second_octet a b 0
  rw [show b.toNat % 16 * 4 + (0 : UInt8).toNat / 64 = b.toNat % 16 * 4 from rfl] at x second
  have symbols : lastSymbols start 0 none [symbol (a.toNat / 4),
      symbol (a.toNat % 4 * 16 + b.toNat / 16), symbol (b.toNat % 16 * 4), pad] =
      .ok ([a.toNat / 4, a.toNat % 4 * 16 + b.toNat / 16, b.toNat % 16 * 4], 1) := by
    rw [lastSymbols_symbol v, lastSymbols_symbol w, lastSymbols_symbol x]
    rfl
  rw [decodeLast_of_lastSymbols symbols (by simp) (by simp), lastOctets, if_neg (by omega),
    first_octet, second]

theorem decodeLast_one (a : UInt8) (start : Nat) :
    decodeLast start [symbol (a.toNat / 4), symbol (a.toNat % 4 * 16), pad, pad] = .ok [a] := by
  obtain ⟨v, w, -⟩ := value_lt a 0 0
  have first := first_octet a 0
  rw [show a.toNat % 4 * 16 + (0 : UInt8).toNat / 16 = a.toNat % 4 * 16 from rfl] at w first
  have symbols : lastSymbols start 0 none [symbol (a.toNat / 4), symbol (a.toNat % 4 * 16), pad,
      pad] = .ok ([a.toNat / 4, a.toNat % 4 * 16], 2) := by
    rw [lastSymbols_symbol v, lastSymbols_symbol w]
    rfl
  rw [decodeLast_of_lastSymbols symbols (by simp) (by simp), lastOctets, if_neg (by omega), first]

theorem encode_cons (a b c d : UInt8) (rest : Bytes) :
    ∃ s symbols, encode (d :: rest) = s :: symbols ∧
      encode (a :: b :: c :: d :: rest) =
        symbol (a.toNat / 4) :: symbol (a.toNat % 4 * 16 + b.toNat / 16) ::
          symbol (b.toNat % 16 * 4 + c.toNat / 64) :: symbol (c.toNat % 64) :: s :: symbols := by
  have nonempty : encode (d :: rest) ≠ [] := by
    unfold encode
    split <;> simp_all
  obtain ⟨s, symbols, he⟩ := List.exists_cons_of_ne_nil nonempty
  refine ⟨s, symbols, he, ?_⟩
  rw [encode, he]

theorem decodeFrom_encode (bs : Bytes) (h : bs ≠ []) (start : Nat) :
    decodeFrom start (encode bs) = .ok bs := by
  fun_induction encode bs generalizing start with
  | case1 a b c rest ih =>
    cases rest with
    | nil => exact decodeLast_three a b c start
    | cons d rest =>
      obtain ⟨s, symbols, he, -⟩ := encode_cons a b c d rest
      obtain ⟨v, w, x, y⟩ := value_lt a b c
      rw [he] at ih ⊢
      rw [decodeFrom, symbolAt_symbol v, symbolAt_symbol w, symbolAt_symbol x, symbolAt_symbol y]
      simp only [bind, Except.bind, ih (by simp), pure, Except.pure]
      rw [first_octet, second_octet, third_octet]
  | case2 a b => exact decodeLast_two a b start
  | case3 a => exact decodeLast_one a start
  | case4 => exact absurd rfl h

theorem length_encode (bs : Bytes) : (encode bs).length % 4 = 0 := by
  fun_induction encode bs with
  | case1 a b c rest ih =>
    simp only [List.length_cons]
    omega
  | case2 | case3 => simp
  | case4 => rfl

theorem decode_encode (bs : Bytes) : decode (encode bs) = .ok bs := by
  by_cases h : bs = []
  · subst h
    rfl
  · have nonempty : (encode bs).isEmpty = false := by
      unfold encode
      split <;> simp_all
    have whole : ((encode bs).length % 4 = 1) = False := by
      rw [length_encode]
      decide
    simp only [decode, nonempty, whole]
    exact decodeFrom_encode bs h 0

theorem octet_latin1 (b : UInt8) : octet (latin1 b) = b := by
  have := b.toNat_lt
  exact toUInt8_eq (Text.Utf8.toNat_ofNat_of_valid (by omega))

/-- The text of an encoding has its octets. -/
theorem ofText_encodeText (bs : Bytes) : Bytes.ofText (encodeText bs) = encode bs := by
  rw [Text.ofText_of_ascii (isText_encodeText bs).ascii, encodeText, String.toList_ofList,
    List.map_map]
  exact List.map_id'' octet_latin1 _

theorem decodeText_encodeText (bs : Bytes) : decodeText (encodeText bs) = .ok bs := by
  rw [decodeText, Text.trim_solid (isText_encodeText bs).isSolid, ofText_encodeText, decode_encode]

end MailClient.Base64
