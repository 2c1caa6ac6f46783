import MailClient.Imap.Idle
import MailClient.Proofs.Text.Decimal

/-! Which untagged responses tell of a change of the folder. A response is judged by its keyword
alone. An event also needs the message number that belongs to the keyword, and does not take one
that does not, so the two judge alike exactly where the number is as it should be. -/
namespace MailClient.Imap

variable {u : Untagged}

def numberedChanges : List String := ["EXISTS", "EXPUNGE", "FETCH", "RECENT"]

/-- Tokens with the keyword of a change, which lack the number that belongs to the keyword or have
one that does not. -/
inductive Misnumbered : List Token → Prop where
  | unnumbered {word rest} : Text.upper word ∈ numberedChanges → Misnumbered (.atom word :: rest)
  | numbered {number word rest} : (Text.unsigned? (Nat.pow 2 32) number).isSome = true →
      Text.upper word = "VANISHED" → Misnumbered (.atom number :: .atom word :: rest)

/-- The keyword of a change is not a number. -/
theorem unsigned?_of_mem_numberedChanges {word : String} (h : Text.upper word ∈ numberedChanges) :
    Text.unsigned? (Nat.pow 2 32) word = none := by
  refine Text.unsigned?_eq_none_of_upper ?_
  simp only [numberedChanges, List.mem_cons, List.not_mem_nil, or_false] at h
  rcases h with h | h | h | h <;>
    · rw [h]
      rfl

theorem Token.eq_atom {t : Token} {text : String} (h : t.atom? = some text) : t = .atom text := by
  cases t <;> cases h
  rfl

theorem Untagged.keyword_first {word : String} {rest : List Token} {code : Option (List Token)}
    {text : Option String} (h : Text.unsigned? (Nat.pow 2 32) word = none) :
    Untagged.keyword? ⟨.atom word :: rest, code, text⟩ = some word ∧
      Untagged.arguments ⟨.atom word :: rest, code, text⟩ = rest := by
  have number : Untagged.number? ⟨.atom word :: rest, code, text⟩ = none := h
  simp [Untagged.keyword?, Untagged.arguments, Untagged.keywordIndex, number, Token.atom?]

theorem Untagged.keyword_second {number word : String} {rest : List Token}
    {code : Option (List Token)} {text : Option String}
    (h : (Text.unsigned? (Nat.pow 2 32) number).isSome = true) :
    Untagged.keyword? ⟨.atom number :: .atom word :: rest, code, text⟩ = some word ∧
      Untagged.arguments ⟨.atom number :: .atom word :: rest, code, text⟩ = rest := by
  have number? : (Untagged.number? ⟨.atom number :: .atom word :: rest, code, text⟩).isSome =
      true := h
  simp [Untagged.keyword?, Untagged.arguments, Untagged.keywordIndex, number?, Token.atom?]

/-- A keyword is the first token, or the second one behind a number. -/
theorem Untagged.keyword_place {word : String} (h : u.keyword? = some word) :
    (u.number? = none ∧ ∃ rest, u.tokens = .atom word :: rest ∧ u.arguments = rest) ∨
      ∃ number rest, u.number?.isSome = true ∧
        (Text.unsigned? (Nat.pow 2 32) number).isSome = true ∧
        u.tokens = .atom number :: .atom word :: rest ∧ u.arguments = rest := by
  obtain ⟨tokens, code, text⟩ := u
  cases hn : Untagged.number? ⟨tokens, code, text⟩ with
  | none =>
    rw [Untagged.keyword?, Untagged.keywordIndex, hn] at h
    obtain ⟨t, ht, ha⟩ := Option.bind_eq_some_iff.mp h
    obtain ⟨rest, rfl⟩ := List.head?_eq_some_iff.mp ((List.head?_eq_getElem? ..).trans ht)
    obtain rfl := Token.eq_atom ha
    exact .inl ⟨rfl, rest, rfl, by simp [Untagged.arguments, Untagged.keywordIndex, hn]⟩
  | some n =>
    rw [Untagged.keyword?, Untagged.keywordIndex, hn] at h
    obtain ⟨first, hf, hv⟩ := Option.bind_eq_some_iff.mp hn
    obtain ⟨number, ha, hv⟩ := Option.bind_eq_some_iff.mp hv
    obtain ⟨rest, rfl⟩ := List.head?_eq_some_iff.mp hf
    obtain ⟨t, ht, hk⟩ := Option.bind_eq_some_iff.mp h
    obtain ⟨rest, rfl⟩ := List.head?_eq_some_iff.mp ((List.head?_eq_getElem? ..).trans ht)
    obtain rfl := Token.eq_atom ha
    obtain rfl := Token.eq_atom hk
    exact .inr ⟨number, rest, rfl, Option.isSome_iff_exists.mpr ⟨n, hv⟩, rfl,
      by simp [Untagged.arguments, Untagged.keywordIndex, hn]⟩

/-- What the keyword and the number say about the numbering. -/
theorem misnumbered_iff : Misnumbered u.tokens ↔ ∃ word, u.keyword? = some word ∧
    (Text.upper word ∈ numberedChanges ∧ u.number? = none ∨
      Text.upper word = "VANISHED" ∧ u.number?.isSome = true) := by
  constructor
  · obtain ⟨tokens, code, text⟩ := u
    intro h
    cases h with
    | @unnumbered word rest hw =>
      have plain := unsigned?_of_mem_numberedChanges hw
      exact ⟨word, (Untagged.keyword_first plain).1, .inl ⟨hw, plain⟩⟩
    | numbered hn hw => exact ⟨_, (Untagged.keyword_second hn).1, .inr ⟨hw, hn⟩⟩
  · rintro ⟨word, hk, h⟩
    rcases Untagged.keyword_place hk with ⟨hn, rest, ht, -⟩ | ⟨number, rest, hn, hv, ht, -⟩
    · obtain ⟨hw, -⟩ | ⟨-, hs⟩ := h
      · rw [ht]
        exact .unnumbered hw
      · rw [hn] at hs
        cases hs
    · obtain ⟨-, hs⟩ | ⟨hw, -⟩ := h
      · rw [hs] at hn
        cases hn
      · rw [ht]
        exact .numbered hv hw

theorem isFolderChange_untagged : (Response.untagged u).isFolderChange = true ↔
    ∃ word, u.keyword? = some word ∧
      (Text.upper word ∈ numberedChanges ∨ Text.upper word = "VANISHED") := by
  have listed (word : String) : Response.folderChanges.any (Text.sameWord word) = true ↔
      Text.upper word ∈ numberedChanges ∨ Text.upper word = "VANISHED" := by
    simp [Response.folderChanges, Text.sameWord, numberedChanges, or_assoc,
      show Text.upper "EXISTS" = "EXISTS" from rfl, show Text.upper "EXPUNGE" = "EXPUNGE" from rfl,
      show Text.upper "FETCH" = "FETCH" from rfl, show Text.upper "RECENT" = "RECENT" from rfl,
      show Text.upper "VANISHED" = "VANISHED" from rfl]
  have keyword : (Response.untagged u).keyword? = u.keyword? := rfl
  rw [Response.isFolderChange, keyword]
  cases u.keyword? with
  | none => simp
  | some word =>
    dsimp only
    rw [listed word]
    simp

theorem isFolderChange_ofUntagged : (Event.ofUntagged u).isFolderChange = true ↔
    ∃ word, u.keyword? = some word ∧
      (Text.upper word ∈ numberedChanges ∧ u.number?.isSome = true ∨
        Text.upper word = "VANISHED" ∧ u.number? = none) := by
  unfold Event.ofUntagged
  cases u.keyword? with
  | none => simp [Event.isFolderChange]
  | some word =>
    cases u.number? with
    | none =>
      simp only [Option.map_some]
      split <;> simp_all [Event.isFolderChange, numberedChanges]
    | some n =>
      simp only [Option.map_some]
      split <;> simp_all [Event.isFolderChange, numberedChanges]

/-- An event tells of a change only if its response does, and both say the same exactly if the
response does not lack the number that belongs to its keyword, or have one that does not. -/
theorem isFolderChange_alike_iff (u : Untagged) :
    ((Event.ofUntagged u).isFolderChange = true → (Response.untagged u).isFolderChange = true) ∧
      ((Event.ofUntagged u).isFolderChange = (Response.untagged u).isFolderChange ↔
        ¬Misnumbered u.tokens) := by
  have apart : "VANISHED" ∉ numberedChanges := by decide
  constructor
  · rw [isFolderChange_ofUntagged, isFolderChange_untagged]
    rintro ⟨word, hk, h⟩
    exact ⟨word, hk, h.imp And.left And.left⟩
  · rw [Bool.eq_iff_iff (b := (Response.untagged u).isFolderChange), isFolderChange_ofUntagged,
      isFolderChange_untagged, misnumbered_iff]
    cases u.keyword? with
    | none => simp
    | some word =>
      by_cases hv : Text.upper word = "VANISHED"
      · cases u.number? with
        | none => simp [hv, apart]
        | some n => simp [hv, apart]
      · cases u.number? with
        | none => simp [hv]
        | some n => simp [hv]

/-- A count without a number is a change to one side and not to the other. -/
theorem isFolderChange_unnumbered :
    let stream := Wire.Stream.start [.data (Bytes.ofText "* EXISTS\r\n")] .unlimited
    let u : Untagged := ⟨[.atom "EXISTS"], none, none⟩
    ((Connection.fresh stream { host := "mail" }).readResponse 1).1 = .ok (.untagged u) ∧
      (Event.ofUntagged u).isFolderChange ≠ (Response.untagged u).isFolderChange := by
  intro stream u
  have read : ((Connection.fresh stream { host := "mail" }).readResponse 1).1 =
      .ok (.untagged u) := by
    with_unfolding_all rfl
  exact ⟨read, by decide⟩

end MailClient.Imap
