import Mathlib.Data.List.Basic
import MailClient.Proofs.Sasl.Talk

/-! Which candidates are tried does not depend on the order in which the schemes are offered. Of
each scheme that is offered a preference selects all candidates, in the configured order or the
strongest scheme first. Where the selection is the same, so is the whole authentication, except that
a failure for want of candidates names the schemes as they were offered. -/
namespace MailClient.Sasl

variable {σ ε : Type}

/-- The same schemes, whatever their order and however often each of them. -/
def SameOffer (offered offered' : List Challenge) : Prop :=
  ∀ scheme, (∃ c ∈ offered, c.scheme = scheme) ↔ ∃ c ∈ offered', c.scheme = scheme

namespace Strategy

/-- The candidates of each scheme are those that are configured for it, in their order, if the
scheme is offered, and none otherwise. -/
def Selects (configured : List Candidate) (offered : List Challenge) (selected : List Candidate) :
    Prop :=
  ∀ scheme, selected.filter (fun candidate => candidate.scheme == scheme) =
    if ∃ c ∈ offered, c.scheme = scheme then
      configured.filter fun candidate => candidate.scheme == scheme
    else []

inductive IsPreference : Strategy → Prop where
  | inOrder (configured : List Candidate) : IsPreference (inOrder configured)
  | strongestFirst (configured : List Candidate) : IsPreference (strongestFirst configured)

variable {strategy : Strategy} {configured : List Candidate} {host : String}
  {offered offered' : List Challenge}

theorem selects_inOrder : Selects configured offered (inOrder configured host offered) := by
  intro scheme
  rw [inOrder, List.filter_filter]
  split
  next offers =>
    refine List.filter_congr fun candidate _ => ?_
    rw [Bool.eq_iff_iff]
    simp only [Bool.and_eq_true, beq_iff_eq, List.any_eq_true, and_iff_left_iff_imp]
    rintro rfl
    exact offers
  next missing =>
    rw [List.filter_eq_nil_iff]
    intro candidate _
    simp only [Bool.and_eq_true, beq_iff_eq, List.any_eq_true, not_and]
    rintro rfl
    exact missing

/-- A stable sort leaves alone what stands in order already. -/
theorem filter_mergeSort {α : Type} {le : α → α → Bool} {p : α → Bool} {l : List α}
    (trans : ∀ a b c, le a b → le b c → le a c) (total : ∀ a b, le a b || le b a)
    (ordered : (l.filter p).Pairwise fun a b => le a b) :
    (l.mergeSort le).filter p = l.filter p := by
  have kept : (l.filter p).Sublist (l.mergeSort le) :=
    List.sublist_mergeSort trans total ordered List.filter_sublist
  have inside := kept.filter p
  rw [List.filter_filter] at inside
  simp only [Bool.and_self] at inside
  have length := ((List.mergeSort_perm l le).filter p).length_eq
  exact (inside.eq_of_length length.symm).symm

variable (a b c : Candidate)

theorem atLeast_trans (hab : decide (b.scheme.strength ≤ a.scheme.strength) = true)
    (hbc : decide (c.scheme.strength ≤ b.scheme.strength) = true) :
    decide (c.scheme.strength ≤ a.scheme.strength) = true := by
  simp only [decide_eq_true_eq] at hab hbc ⊢
  exact Nat.le_trans hbc hab

theorem atLeast_total : (decide (b.scheme.strength ≤ a.scheme.strength) ||
    decide (a.scheme.strength ≤ b.scheme.strength)) = true := by
  simpa using Nat.le_total b.scheme.strength a.scheme.strength

theorem selects_strongestFirst :
    Selects configured offered (strongestFirst configured host offered) := by
  intro scheme
  have equal : ((inOrder configured host offered).filter fun candidate =>
      candidate.scheme == scheme).Pairwise fun a b =>
        decide (b.scheme.strength ≤ a.scheme.strength) = true := by
    refine List.pairwise_of_forall_mem_list fun a ha b hb => ?_
    have ha := (List.mem_filter.mp ha).2
    have hb := (List.mem_filter.mp hb).2
    rw [beq_iff_eq] at ha hb
    simp [ha, hb]
  rw [strongestFirst, filter_mergeSort atLeast_trans atLeast_total equal]
  exact selects_inOrder scheme

theorem pairwise_strongestFirst : (strongestFirst configured host offered).Pairwise fun a b =>
    b.scheme.strength ≤ a.scheme.strength := by
  have sorted := List.pairwise_mergeSort atLeast_trans atLeast_total
    (inOrder configured host offered)
  simpa [strongestFirst] using sorted

theorem inOrder_congr (same : SameOffer offered offered') :
    inOrder configured host offered = inOrder configured host offered' := by
  refine List.filter_congr fun candidate _ => ?_
  rw [Bool.eq_iff_iff]
  simpa using same candidate.scheme

/-- A preference goes by the schemes that are offered, and not by their order. -/
theorem IsPreference.congr (h : IsPreference strategy) (same : SameOffer offered offered') :
    strategy host offered = strategy host offered' := by
  cases h with
  | inOrder configured => exact inOrder_congr same
  | strongestFirst configured =>
    rw [Strategy.strongestFirst, Strategy.strongestFirst, inOrder_congr same]

end Strategy

namespace Negotiation

variable {tokens : TokenProvider σ} {limit : Duration} {candidate : Candidate} {x : Exchange}
  {initial : Option String} {s s' : σ} {queue rest : List Candidate}

/-- What opens is an exchange for the candidate, whose credentials do. -/
theorem fits_of_openExchange (h : openExchange tokens limit candidate s = (.ok (initial, x), s')) :
    x.candidate.fits = true := by
  obtain ⟨calls, -, tried⟩ :=
    openExchange_recorded tokens limit candidate s ([] : List (Call Error))
  rw [h] at tried
  cases tried with
  | opened fits _ => exact fits

theorem fits_of_openFirst
    (h : openFirst tokens limit queue s = (some (initial, x, rest), s')) :
    x.candidate.fits = true := by
  obtain ⟨calls, -, found⟩ := openFirst_recorded tokens limit queue s ([] : List (Call Error))
  rw [h] at found
  cases found with
  | found _ fits _ => exact fits

end Negotiation

namespace Authenticator

open Negotiation (Engaged)

variable {a : Authenticator σ} {transport : Transport σ ε} {offered offered' : List Challenge}
  {n : Negotiation} {x : Exchange} {s : σ}

/-- Once an exchange is under way, what was offered is not looked at again. -/
theorem converse_offered (h : Engaged n x) (offered offered' : List Challenge) (refreshed : Bool)
    (message : ClientMessage) (s : σ) : a.converse transport offered refreshed message n s =
      a.converse transport offered' refreshed message n s := by
  -- Each answer leaves fewer turns, and a fresh token, of which there is one, at most two.
  induction hk : (if refreshed then 0 else 3) + (x.scheme.turns - x.sent.toNat) using
    Nat.strongRecOn generalizing refreshed n x message s with
  | ind k ih =>
    rw [converse_engaged h, converse_engaged h]
    rcases send transport message s with ⟨e | data | _ | why, s₁⟩
    · rfl
    · dsimp only
      cases hcomplete : (x.challenge (.turn x.scheme data)).complete with
      | true => rfl
      | false =>
        rw [if_neg (by simp), if_neg (by simp)]
        rcases hanswer : (x.challenge (.turn x.scheme data)).answer none with ⟨e | reply, x'⟩
        · rfl
        · obtain ⟨hscheme, hlt, hsent⟩ := Negotiation.sent_lt_of_answer hcomplete hanswer
          have candidate := Exchange.candidate_of_answer hanswer
          have fewer : (if refreshed then 0 else 3) + (x'.scheme.turns - x'.sent.toNat) < k := by
            rw [← hk, hscheme, hsent]
            omega
          exact ih _ fewer (engaged_proceed (candidate ▸ h.fits)) refreshed _ s₁ rfl
    · rfl
    · dsimp only
      by_cases hr : refreshed = false ∧ x.scheme.usesToken = true
      · rw [if_pos hr, if_pos hr]
        rcases hopen : Negotiation.openExchange a.tokens a.limit x.candidate
          (a.tokens.invalidate x.user s₁) with ⟨e | ⟨initial, x'⟩, s₂⟩
        · rfl
        · have fewer : (if true then 0 else 3) + (x'.scheme.turns - x'.sent.toNat) < k := by
            have few := Negotiation.turns_le_two x'.scheme
            rw [← hk, hr.1]
            simp
            omega
          exact ih _ fewer (engaged_renew (Negotiation.fits_of_openExchange hopen)) true _ s₂ rfl
      · rw [if_neg hr, if_neg hr]

/-- Two runs come to the same and leave the same behind. A failure for want of candidates names the
schemes as they were offered. -/
structure SameRun (fault : Error → ε) (offered offered' : List Challenge)
    (ran ran' : Except ε Outcome × Negotiation × σ) : Prop where
  left : ran.2 = ran'.2
  result : ran.1 = ran'.1 ∨
    ran.1 = .error (unusable fault offered) ∧ ran'.1 = .error (unusable fault offered')

theorem run_sameOffer (a : Authenticator σ) (transport : Transport σ ε) (ho : offered ≠ [])
    (ho' : offered' ≠ []) (selected : a.strategy a.host offered = a.strategy a.host offered')
    (s : σ) :
    SameRun transport.ofAuth offered offered' (a.run transport offered (.fresh, s))
      (a.run transport offered' (.fresh, s)) := by
  have ready : Negotiation.fresh.phase ≠ .failure := by decide
  rw [run_select ho ready rfl, run_select ho' ready rfl, selected]
  rcases hopen : Negotiation.openFirst a.tokens a.limit (a.strategy a.host offered') s with
    ⟨_ | ⟨initial, x, rest⟩, s'⟩
  · exact ⟨rfl, .inr ⟨rfl, rfl⟩⟩
  · have engaged : Engaged ⟨.challenged, some x, rest⟩ x :=
      ⟨rfl, .inl rfl, Negotiation.fits_of_openFirst hopen⟩
    have same : a.converse transport offered _ _ _ _ = a.converse transport offered' _ _ _ _ :=
      converse_offered engaged offered offered' false (.start x.scheme initial) s'
    exact ⟨congrArg Prod.snd same, .inl (congrArg Prod.fst same)⟩

end Authenticator
end MailClient.Sasl
