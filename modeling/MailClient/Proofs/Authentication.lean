import MailClient.Proofs.Imap.Challenges
import MailClient.Proofs.Smtp.Challenges

/-! An authentication is the same over every protocol. Whatever a server is to say, the client makes
the same calls, sends the same messages and comes to the same end, whether it hears replies with
codes or responses with tags, and wherever its first messages go. -/
namespace MailClient

open Sasl

theorem framed_authentication {τ : Type} (host : String) (strategy : Strategy)
    (service : TokenService τ) (limit : Duration) (offered : List Challenge)
    (script : List ServerStep × τ) (remark : String)
    (plain : ∀ step ∈ script.1, step.IsPlain) (remarkable : IsPlain remark)
    (enough : ((Authenticator.mk host strategy (Script.tokenProvider service) limit).run
      Script.transport offered (.fresh, script)).1 ≠ .error .exhausted) :
    let a : Authenticator _ := ⟨host, strategy, Script.tokenProvider service, limit⟩
    let calls := a.calls Script.transport offered .fresh script
    (∀ d : Smtp.Dialogue τ,
      d.stream.Offers ((Smtp.Dialogue.coding remark).heard remark () calls) →
      d.underWay = false → d.tokens = script.2 →
      Framed a ⟨host, strategy, Smtp.Dialogue.tokenProvider service, limit⟩ Smtp.Dialogue.transport
        (Smtp.Dialogue.view τ) "535 " true Smtp.Dialogue.lineOf offered script d) ∧
    ∀ (inline : Bool) (n : UInt32) (d : Imap.Dialogue τ),
      d.connection.stream.Offers ((Imap.Dialogue.coding inline remark).heard remark n calls) →
      Imap.Dialogue.Fits inline n false d → d.tokens = script.2 →
      Framed a ⟨host, strategy, Imap.Dialogue.tokenProvider service, limit⟩ Imap.Dialogue.transport
        (Imap.Dialogue.view τ inline) "" inline Imap.Dialogue.lineOf offered script d := by
  intro a calls
  constructor
  · intro d offers closed same
    exact (Smtp.Dialogue.realizes remarkable service).framed Smtp.Dialogue.legible host strategy
      limit offered plain remarkable enough offers closed same
  · intro inline n d offers fits same
    exact (Imap.Dialogue.realizes remarkable inline service).framed
      (Imap.Dialogue.legible inline) host strategy limit offered plain remarkable enough offers fits
      same

/-- A server asks for more after an empty message, which was all that there was to send. The client
gives up, over each protocol and with what it hears cut in two. -/
theorem framed_given_up :
    let strategy := Strategy.inOrder [⟨.external, .certificate ""⟩]
    let a : Authenticator (List ServerStep × Unit) :=
      ⟨"mail", strategy, Script.tokenProvider (.empty Unit), 0⟩
    let script : List ServerStep × Unit := ([.challenge "YQ=="], ())
    let stream (said more : String) : Wire.Stream :=
      .start [.data (Bytes.ofText said), .data (Bytes.ofText more)] .unlimited
    let smtp : Smtp.Dialogue Unit := ⟨stream "334 Y" "Q==\r\n535 no\r\n", 0, false, ()⟩
    let imap (inline : Bool) (said : String) : Imap.Dialogue Unit :=
      ⟨.fresh (stream said "Q==\r\nA0000 NO no\r\n") { host := "mail" }, none, inline, ()⟩
    (a.calls Script.transport [.offer .external] .fresh script).filterMap Call.message? =
      [.start .external (some ""), .cancel] ∧
    Framed a ⟨"mail", strategy, Smtp.Dialogue.tokenProvider (.empty Unit), 0⟩
      Smtp.Dialogue.transport (Smtp.Dialogue.view Unit) "535 " true Smtp.Dialogue.lineOf
      [.offer .external] script smtp ∧
    Framed a ⟨"mail", strategy, Imap.Dialogue.tokenProvider (.empty Unit), 0⟩
      Imap.Dialogue.transport (Imap.Dialogue.view Unit true) "" true Imap.Dialogue.lineOf
      [.offer .external] script (imap true "+ Y") ∧
    Framed a ⟨"mail", strategy, Imap.Dialogue.tokenProvider (.empty Unit), 0⟩
      Imap.Dialogue.transport (Imap.Dialogue.view Unit false) "" false Imap.Dialogue.lineOf
      [.offer .external] script (imap false "+ \r\n+ Y") := by
  intro strategy a script stream smtp imap
  have played : (a.recorded Fault).run Script.transport.recorded [.offer .external]
      (.fresh, script, []) =
      (.error (.auth (.rejected "EXTERNAL exchange did not converge")), .failed, ([], ()),
        [.start .external (some "") (.ok (.challenge "YQ==")), .cancel (.ok ())]) := by
    rw [Authenticator.run_select (by simp) (by decide) rfl]
    have engaged : Negotiation.Engaged
        ⟨.challenged, some ⟨⟨.external, .certificate ""⟩, 1, none, false⟩, []⟩
        ⟨⟨.external, .certificate ""⟩, 1, none, false⟩ := ⟨rfl, .inl rfl, rfl⟩
    exact Authenticator.converse_engaged engaged (a.recorded Fault) Script.transport.recorded
      [.offer .external] false (.start .external (some "")) (script, [])
  have calls : a.calls Script.transport [.offer .external] .fresh script =
      [.start .external (some "") (.ok (.challenge "YQ==")), .cancel (.ok ())] := by
    unfold Authenticator.calls
    rw [played]
  have result : (a.run Script.transport [.offer .external] (.fresh, script)).1 =
      .error (.auth (.rejected "EXTERNAL exchange did not converge")) := by
    obtain ⟨_, recorded, -⟩ :=
      a.ran_recorded Script.transport [.offer .external] .fresh script []
    rw [played] at recorded
    exact (congrArg Prod.fst recorded).symm
  have offers (said more : String) : (stream said more).Offers
      (Bytes.ofText said ++ Bytes.ofText more) := by
    rw [← List.append_nil (Bytes.ofText more)]
    exact Wire.Stream.offers_start [Bytes.ofText said, Bytes.ofText more]
  have fits (inline : Bool) (said : String) :
      Imap.Dialogue.Fits inline 4294967295 false (imap inline said) :=
    ⟨rfl, rfl, rfl, rfl, rfl, rfl, show Imap.Dialogue.lineRoom ≤ 1048576 by decide⟩
  obtain ⟨overSmtp, overImap⟩ := framed_authentication "mail" strategy (.empty Unit) 0
    [.offer .external] script "no"
    (List.forall_mem_singleton.mpr ⟨by decide, by decide⟩)
    ⟨by decide, by decide, by decide⟩ (by
      rw [show (Authenticator.run _ Script.transport _ (.fresh, script)).1 = _ from result]
      nofun)
  refine ⟨by rw [calls]; rfl, overSmtp smtp ?_ rfl rfl,
    overImap true 4294967295 (imap true "+ Y") ?_ (fits true "+ Y") rfl,
    overImap false 4294967295 (imap false "+ \r\n+ Y") ?_ (fits false "+ \r\n+ Y") rfl⟩
  · rw [show Authenticator.calls _ Script.transport _ .fresh script = _ from calls]
    exact offers "334 Y" "Q==\r\n535 no\r\n"
  · rw [show Authenticator.calls _ Script.transport _ .fresh script = _ from calls]
    exact offers "+ Y" "Q==\r\nA0000 NO no\r\n"
  · rw [show Authenticator.calls _ Script.transport _ .fresh script = _ from calls]
    exact offers "+ \r\n+ Y" "Q==\r\nA0000 NO no\r\n"

end MailClient
