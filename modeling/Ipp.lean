import Ipp.Fault
import Ipp.Operation
import Ipp.Status
import Ipp.Text.Utf8
import Ipp.Wire
import Ipp.Config
import Ipp.Trace
import Ipp.Reply.Queue
import Ipp.Channel.Codec
import Ipp.Uri.Basic
import Ipp.Exchange.Parsing
import Ipp.Exchange.Claim
import Ipp.Exchange.Reply
import Ipp.Exchange.Document
import Ipp.WellKnown
import Ipp.Serve
import Ipp.Call
import Ipp.Proofs.Request.Acceptance
import Ipp.Proofs.Channel.Sending
import Ipp.Proofs.Exchange.Claims
import Ipp.Proofs.Reply.Builder
import Ipp.Proofs.Reply.Sending
import Ipp.Proofs.Channel.Copying
import Ipp.Proofs.Session.Composing
import Ipp.Proofs.Session.Custody
import Ipp.Proofs.Channel.Alike
import Ipp.Proofs.Exchange.Alike
import Ipp.Proofs.Session.Alike
import Ipp.Proofs.Session.Course
import Ipp.Proofs.Session.Unclaimed
import Ipp.Proofs.Session.Blame
import Ipp.Proofs.Exchange.Reserializing
import Ipp.Proofs.Session.Gatekeeping
import Ipp.Proofs.Session.Drafting
import Ipp.Proofs.Session.Guards
import Ipp.Proofs.Session.Output
import Ipp.Proofs.Channel.Primitives
import Ipp.Proofs.Channel.Emitting
import Ipp.Proofs.Channel.Order
import Ipp.Proofs.Exchange.Accounting
import Ipp.Proofs.Exchange.ClaimByClaim
import Ipp.Proofs.Session.Forwarding
import Ipp.Proofs.Session.Stopping
import Ipp.Proofs.Session.Addressing
import Ipp.Proofs.Session.Building
import Ipp.Proofs.Request.Truncation
import Ipp.Proofs.Session.Document
import Ipp.Proofs.Session.Requested
import Ipp.Proofs.Exchange.Settling
import Ipp.Proofs.Exchange.Identity
import Ipp.Proofs.Exchange.Widening
import Ipp.Proofs.Exchange.JobNumbers
import Ipp.Proofs.Session.Tracing
import Ipp.Proofs.Session.Substituting
import Ipp.Proofs.Config
import Ipp.Proofs.Channel.Relaying
import Ipp.Proofs.Uri.Parts
