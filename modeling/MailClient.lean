import MailClient.Action
import MailClient.Base64
import MailClient.Bytes
import MailClient.Digest.Hmac
import MailClient.Digest.Md5
import MailClient.Duration
import MailClient.Imap.Command
import MailClient.Imap.Connection
import MailClient.Imap.Conversation
import MailClient.Imap.Error
import MailClient.Imap.Idle
import MailClient.Imap.Literal
import MailClient.Imap.Login
import MailClient.Imap.Malformed
import MailClient.Imap.Octet
import MailClient.Imap.Opening
import MailClient.Imap.Parse
import MailClient.Imap.Response
import MailClient.Imap.Settings
import MailClient.Imap.Tag
import MailClient.Json
import MailClient.Json.Reader
import MailClient.Json.Record
import MailClient.Sasl.Authentication
import MailClient.Sasl.Credentials
import MailClient.Sasl.Error
import MailClient.Sasl.Exchange
import MailClient.Sasl.Negotiation
import MailClient.Sasl.Payload
import MailClient.Sasl.Scheme
import MailClient.Sasl.Strategy
import MailClient.Sasl.Token
import MailClient.Smtp.Address
import MailClient.Smtp.Client
import MailClient.Smtp.Command
import MailClient.Smtp.Dialogue
import MailClient.Smtp.Error
import MailClient.Smtp.Extension
import MailClient.Smtp.Message
import MailClient.Smtp.Opening
import MailClient.Smtp.Reading
import MailClient.Smtp.Reply
import MailClient.Smtp.Request
import MailClient.Smtp.Session
import MailClient.Smtp.Settings
import MailClient.Text.Blank
import MailClient.Text.Case
import MailClient.Text.Decimal
import MailClient.Text.Printable
import MailClient.Text.Quoted
import MailClient.Text.Utf8
import MailClient.Timestamp
import MailClient.Watch.FolderWatch
import MailClient.Watch.Settings
import MailClient.Watch.State
import MailClient.Watch.TaskPool
import MailClient.Watch.WakeLock
import MailClient.Watch.WatchList
import MailClient.Watch.Worker
import MailClient.Wire.Fault
import MailClient.Wire.HostName
import MailClient.Wire.Inbox
import MailClient.Wire.Opening
import MailClient.Wire.Outlet
import MailClient.Wire.Security
import MailClient.Wire.Source
import MailClient.Wire.Stream
import MailClient.Proofs.Imap.Scan
import MailClient.Proofs.Text.Utf8
import MailClient.Proofs.Imap.Grammar
import MailClient.Proofs.Imap.Soundness
import MailClient.Proofs.Imap.Cuts
import MailClient.Proofs.Imap.Rendering
import MailClient.Proofs.Imap.RoundTrip
import MailClient.Proofs.Imap.Steps
import MailClient.Proofs.Imap.Idling
import MailClient.Proofs.Watch.Cycle
import MailClient.Proofs.Watch.Reports
import MailClient.Proofs.Imap.Failures
import MailClient.Proofs.Imap.Encoding
import MailClient.Proofs.Imap.CommandReader
import MailClient.Proofs.Imap.Incidents
import MailClient.Proofs.Sasl.Surroundings
import MailClient.Proofs.Imap.Calls
import MailClient.Proofs.Imap.Operations
import MailClient.Proofs.Imap.Silence
import MailClient.Proofs.Imap.Correlation
import MailClient.Proofs.Imap.Delivery
import MailClient.Proofs.Imap.IdleCompletion
import MailClient.Proofs.Sasl.Calls
import MailClient.Proofs.Sasl.Talk
import MailClient.Proofs.Sasl.Fallback
import MailClient.Proofs.Sasl.Renewal
import MailClient.Proofs.Sasl.Answers
import MailClient.Proofs.Sasl.Bounds
import MailClient.Proofs.Sasl.Invalidation
import MailClient.Proofs.Sasl.Negotiating
import MailClient.Proofs.Watch.Holds
import MailClient.Proofs.Watch.Lifecycle
import MailClient.Proofs.Watch.Tending
import MailClient.Proofs.Watch.Watching
import MailClient.Proofs.Sasl.Closing
import MailClient.Proofs.Imap.Settling
import MailClient.Proofs.Imap.LastResort
import MailClient.Proofs.Wire.Writing
import MailClient.Proofs.Wire.Upgrading
import MailClient.Proofs.Smtp.Replies
import MailClient.Proofs.Smtp.Opening
import MailClient.Proofs.Imap.Opening
import MailClient.Proofs.Encryption
import MailClient.Proofs.Wire.Patience
import MailClient.Proofs.Imap.Timeouts
import MailClient.Proofs.Imap.Resuming
import MailClient.Proofs.Watch.Protocol
import MailClient.Proofs.Watch.Speech
import MailClient.Proofs.Text.Words
import MailClient.Proofs.Wire.Script
import MailClient.Proofs.Sasl.Alphabet
import MailClient.Proofs.Sasl.Script
import MailClient.Proofs.Sasl.Secrets
import MailClient.Proofs.Sasl.Messages
import MailClient.Proofs.Sasl.Coding
import MailClient.Proofs.Smtp.Challenges
import MailClient.Proofs.Smtp.ReplyFormat
import MailClient.Proofs.Smtp.Envelope
import MailClient.Proofs.Smtp.Turns
import MailClient.Proofs.Smtp.Authenticating
import MailClient.Proofs.Smtp.Lockstep
import MailClient.Proofs.Imap.Challenges
import MailClient.Proofs.Authentication
import MailClient.Proofs.Smtp.Content
import MailClient.Proofs.Imap.Changes
import MailClient.Proofs.Imap.Deliveries
import MailClient.Proofs.Wire.Source
import MailClient.Proofs.Imap.Literals
import MailClient.Proofs.Text.Base64
import MailClient.Proofs.Sasl.Reading
import MailClient.Proofs.Sasl.Caching
import MailClient.Proofs.Imap.Quoting
import MailClient.Proofs.Sasl.Selection
import MailClient.Proofs.Smtp.Mechanisms
import MailClient.Proofs.Imap.Capabilities
import MailClient.Proofs.Imap.Tags
import MailClient.Proofs.Sasl.Accounts
