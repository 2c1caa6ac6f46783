import MailClient.Proofs.Wire.Seamless
import MailClient.Proofs.Wire.Writing
import MailClient.Wire.HostName
import MailClient.Wire.Opening

/-! Encryption on request. Before it begins a client may say only what is needed to ask for it, and
nothing that came in the clear may be left for the time after. -/
namespace MailClient.Wire

variable {σ ε α β γ : Type}

inductive Framing.Reads (f : Framing σ ε α) : Bytes → List α → Bytes → Prop where
  | nil (bs) : Reads f bs [] bs
  | cons {bs a rest items last} : f.consume f.initial bs = .done a rest →
      Reads f rest items last → Reads f bs (a :: items) last

theorem Framing.Reads.append {f : Framing σ ε α} {bs rest last : Bytes} {items later : List α}
    (h : f.Reads bs items rest) (h' : f.Reads rest later last) :
    f.Reads bs (items ++ later) last := by
  induction h with
  | nil => exact h'
  | cons taken _ ih => exact .cons taken (ih h')

namespace Stream

def content (s : Stream) : Bytes := s.inbox.content

structure Talked (f : Framing σ ε α) (s : Stream) (items : List α) (said : Bytes) (s' : Stream) :
    Prop where
  heard : f.Reads s.content items s'.content
  said : s'.written = s.written ++ said

variable {f : Framing σ ε α} {s s' s'' : Stream} {items later : List α} {said more : Bytes}
  {limit : Duration}

theorem Talked.refl (f : Framing σ ε α) (s : Stream) : Talked f s [] [] s :=
  ⟨.nil _, (List.append_nil _).symm⟩

theorem Talked.trans (h : Talked f s items said s') (h' : Talked f s' later more s'') :
    Talked f s (items ++ later) (said ++ more) s'' :=
  ⟨h.heard.append h'.heard, by rw [h'.said, h.said, List.append_assoc]⟩

theorem written_read (f : Framing σ ε α) (limit : Duration) (s : Stream) :
    (s.read f limit).2.written = s.written := rfl

theorem talked_read (hf : f.Seamless) {a : α} (h : s.read f limit = (.item a, s')) :
    Talked f s [a] [] s' := by
  unfold read at h
  dsimp only at h
  obtain ⟨item, rfl⟩ := Prod.mk.inj h
  refine ⟨.cons (Inbox.consume_of_pull hf (Prod.ext item rfl)) (.nil _), ?_⟩
  exact (List.append_nil _).symm

/-- A write hears nothing, and says all of its octets or the first ones. -/
theorem talked_write (f : Framing σ ε α) (bytes : Bytes) (limit : Duration) (s : Stream) :
    ∃ part, part <+: bytes ∧ Talked f s [] part (s.write bytes limit).2 := by
  obtain ⟨part, short, written⟩ := written_write bytes limit s
  refine ⟨part, short, ?_, written⟩
  rw [content, content, inbox_write]
  exact .nil _

theorem talked_of_write (f : Framing σ ε α) {bytes : Bytes}
    (h : s.write bytes limit = (.all, s')) : Talked f s [] bytes s' := by
  obtain ⟨part, -, heard, -⟩ := talked_write f bytes limit s
  rw [h] at heard
  exact ⟨heard, written_of_write h⟩

end Stream

structure Upgrade (α : Type) where
  /-- All that may have gone out in the clear once these items have been heard. -/
  speech : List α → Bytes
  /-- The items amount to the consent of the server. -/
  Consent : List α → Prop

namespace Upgrade

/-- The client keeps to the speech at every moment from `s` on: it says something only if what has
been heard before allows it. -/
inductive Keeps (u : Upgrade α) (f : Framing σ ε α) (s : Stream) :
    List α → Bytes → Stream → Prop where
  | begun : Keeps u f s [] [] s
  | speaks {items said part s₁ s₂} : Keeps u f s items said s₁ → s₁.Talked f [] part s₂ →
      said ++ part <+: u.speech items → Keeps u f s items (said ++ part) s₂
  | hears {items said later s₁ s₂} : Keeps u f s items said s₁ → s₁.Talked f later [] s₂ →
      Keeps u f s (items ++ later) said s₂

def Kept (u : Upgrade α) (f : Framing σ ε α) (s s' : Stream) : Prop :=
  ∃ items said s₁, u.Keeps f s items said s₁ ∧ s'.written = s₁.written

/-- An opening keeps to the speech, and ends with an error or with a handshake. A handshake has the
consent of the server, and nothing that came in the clear is buffered behind it. -/
inductive Guarded (u : Upgrade α) (f : Framing σ ε α) (host : String) :
    Dialled → Opening β γ → Prop where
  | undialled {dialled : Dialled} {e : γ} : (∀ s, dialled ≠ .stream s) →
      Guarded u f host dialled (.failed e none)
  | failed {s s' : Stream} {e : γ} : u.Kept f s s' →
      Guarded u f host (.stream s) (.failed e (some s'))
  | handshake {s s' : Stream} {items : List α} : u.Keeps f s items (u.speech items) s' →
      u.Consent items → s'.inbox.buffer = [] → HostName.isValid host = true →
      Guarded u f host (.stream s) (.handshake host s')

variable {f : Framing σ ε α} {u : Upgrade α} {s s' : Stream} {items : List α} {said : Bytes}

theorem Keeps.kept (h : u.Keeps f s items said s') : u.Kept f s s' := ⟨items, said, s', h, rfl⟩

/-- In the end all that was heard came in this order, and all that was said went out. -/
theorem Keeps.talked (h : u.Keeps f s items said s') : s.Talked f items said s' := by
  induction h with
  | begun => exact .refl f s
  | speaks _ more _ ih =>
    have whole := ih.trans more
    rwa [List.append_nil] at whole
  | hears _ more ih =>
    have whole := ih.trans more
    rwa [List.append_nil] at whole

end Upgrade
end MailClient.Wire
