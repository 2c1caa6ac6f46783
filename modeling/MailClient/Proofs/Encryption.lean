import MailClient.Proofs.Imap.Opening
import MailClient.Proofs.Smtp.Opening

/-! Clients that ask for encryption say nothing else in the clear, whatever a server sends and
however it is cut, and they do not go on without encryption. -/
namespace MailClient

def Wire.Opening.prelude? {α ε : Type} : Wire.Opening α ε → Option Bytes
  | .handshake _ stream => some stream.written
  | _ => none

theorem guarded_openings {τ : Type} (dialled : Wire.Dialled) (smtp : Smtp.Settings)
    (imap : Imap.Settings) (strategy : Sasl.Strategy) (service : Sasl.TokenService τ) (tokens : τ)
    (hs : smtp.security = .startTls) (hi : imap.security = .startTls) :
    (Smtp.Session.upgrade smtp.clientName).Guarded Smtp.Reading.framing smtp.host dialled
        (Smtp.Session.connect dialled smtp) ∧
      (Smtp.Session.upgrade smtp.clientName).Guarded Smtp.Reading.framing smtp.host dialled
        (Smtp.Session.connectAs dialled smtp strategy service tokens).1 ∧
      Imap.Connection.upgrade.Guarded (Imap.Parse.framing imap.parse) imap.host dialled
        (Imap.Connection.connect dialled imap) :=
  ⟨Smtp.Session.guarded_connect dialled hs,
    Smtp.Session.guarded_connectAs dialled strategy service tokens hs,
    Imap.Connection.guarded_connect dialled hi⟩

/-- A server that agrees to encryption, and one that says more than that in the same breath. -/
theorem guarded_openings_glued :
    let smtp : Smtp.Settings := { host := "mail" }
    let imap : Imap.Settings := { host := "mail", security := .startTls }
    let agreed : Wire.Dialled := .stream (.start
      [.data (Bytes.ofText "220 mail\r\n250-mail\r\n250 starttls\r\n"),
        .data (Bytes.ofText "220 go\r\n")] .unlimited)
    let glued : Wire.Dialled := .stream (.start
      [.data (Bytes.ofText "* OK mail\r\nA0000 OK go\r\n* BYE\r\n")] .unlimited)
    smtp.security = .startTls ∧ imap.security = .startTls ∧
      (Smtp.Session.upgrade smtp.clientName).Guarded Smtp.Reading.framing smtp.host agreed
        (Smtp.Session.connect agreed smtp) ∧
      (Smtp.Session.connect agreed smtp).prelude? =
        some (Bytes.ofText "EHLO localhost\r\nSTARTTLS\r\n") ∧
      Imap.Connection.upgrade.Guarded (Imap.Parse.framing imap.parse) imap.host glued
        (Imap.Connection.connect glued imap) ∧
      (Imap.Connection.connect glued imap).prelude? = none := by
  intro smtp imap agreed glued
  have met (dialled : Wire.Dialled) := guarded_openings dialled smtp imap (fun _ _ => [])
    (Sasl.TokenService.empty Unit) () rfl rfl
  exact ⟨rfl, rfl, (met agreed).1, by decide +kernel, (met glued).2.2, by decide +kernel⟩

end MailClient
