import Errex.Model.Api
import Errex.Model.Retention
import Errex.Model.Envelope
import Errex.Proof.Envelope.RoundTrip
import Errex.Proof.Envelope.FinalNewline
import Errex.Proof.Retention.Tick
import Errex.Proof.Retention.Purge
import Errex.Proof.Retention.Order
import Errex.Proof.Issues.Redelivery
import Errex.Proof.Accounts.Answers
import Errex.Proof.Accounts.Sessions
import Errex.Proof.Accounts.LastAdmin
import Errex.Proof.Accounts.HalfPatch
import Errex.Proof.Accounts.FirstUser
import Errex.Proof.Accounts.Lockout
import Errex.Proof.Issues.EventRows
import Errex.Proof.Ingest.Limiter
import Errex.Proof.Ingest.RateCap
import Errex.Proof.Ingest.Addresses
import Errex.Proof.WsClient
import Errex.Proof.Live
import Errex.Proof.Alerts
import Errex.Proof.Projects
import Errex.Proof.Activity
import Errex.Proof.Webhook.Gate
import Errex.Proof.Fingerprint
import Errex.Foundation.Regex
import Errex.Proof.Spa.Reload
import Errex.Proof.Spa.ShareLink
import Errex.Proof.Spa.Selection
import Errex.Proof.Spa.Visible
import Errex.Proof.Spa.EventStream
import Errex.Proof.Arrivals
import Errex.Proof.Spa.Words
import Errex.Proof.Spa.Negation
import Errex.Proof.Spa.Mount
import Errex.Proof.Spa.RoundTrip
import Errex.Proof.Spa.Highlight
import Errex.Proof.EventJson
import Errex.Proof.Origin
import Errex.Proof.BindHost
import Errex.Proof.DigestTask
import Errex.Proof.Grouping
import Errex.Proof.Tags
import Errex.Proof.Timestamps
import Errex.Proof.TimeOrder
import Errex.Proof.Spa.Curl
import Errex.Proof.Mediation
import Errex.Proof.Digested
import Errex.Proof.Retention.Bounds
import Errex.Proof.Reconnect
import Errex.Proof.Fanout
import Errex.Proof.Ingest.Tokens
import Errex.Proof.Accounts.Secrecy
import Errex.Proof.Spa.Paths
import Errex.Proof.Accounts.Revocation
import Errex.Proof.Webhook.Delivery
import Errex.Proof.Contract
import Errex.Proof.Stored
import Errex.Proof.Tenants
import Errex.Proof.Wire
import Errex.Proof.AlertLinks
