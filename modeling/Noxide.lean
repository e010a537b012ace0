import Noxide.Admission.Actions
import Noxide.Admission.Computation
import Noxide.Admission.Expiry
import Noxide.Admission.Jobs
import Noxide.Admission.Membership
import Noxide.Admission.Operations
import Noxide.Admission.Parameters
import Noxide.Admission.Policy
import Noxide.Admission.Queries
import Noxide.Admission.Resources
import Noxide.Admission.Routing
import Noxide.Admission.Search
import Noxide.Authority.Agreement
import Noxide.Authority.Capability
import Noxide.Authority.Credit
import Noxide.Authority.Evaluate
import Noxide.Authority.Limiter
import Noxide.Authority.RateWindow
import Noxide.Authority.Security
import Noxide.Authority.Transparency
import Noxide.Blobs.Activation
import Noxide.Blobs.Files
import Noxide.Blobs.Grammar
import Noxide.Blobs.Indices
import Noxide.Blobs.Inspect
import Noxide.Blobs.Lifecycle
import Noxide.Blobs.Markers
import Noxide.Blobs.Multipart
import Noxide.Blobs.Objects
import Noxide.Blobs.Pairing
import Noxide.Blobs.PartHeaders
import Noxide.Blobs.Persistence
import Noxide.Blobs.Policy
import Noxide.Blobs.Prefix
import Noxide.Blobs.Quota
import Noxide.Blobs.Rows
import Noxide.Blobs.Safety
import Noxide.Blobs.State
import Noxide.Blobs.Tables
import Noxide.Delivery.Owner
import Noxide.Delivery.Runs
import Noxide.Delivery.Slots
import Noxide.Effects.Bounds
import Noxide.Effects.Fencing
import Noxide.Effects.Moves
import Noxide.Effects.Operations
import Noxide.Effects.Outbox
import Noxide.Effects.Sends
import Noxide.Effects.Shape
import Noxide.Effects.Turns
import Noxide.Effects.Workers
import Noxide.Guest.Accounting
import Noxide.Guest.Exchange
import Noxide.Guest.Frames
import Noxide.Guest.Isolation
import Noxide.Guest.Pool
import Noxide.Guest.Wire
import Noxide.Host.AtMostOnce
import Noxide.Host.Delivery
import Noxide.Host.Fencing
import Noxide.Host.Invocation
import Noxide.Host.Recovery
import Noxide.Host.Retries
import Noxide.Host.Rotation
import Noxide.Host.RotationRuns
import Noxide.Host.Submission
import Noxide.Host.Turns
import Noxide.Http.Form
import Noxide.Http.Links
import Noxide.Http.Proxy
import Noxide.Http.Query
import Noxide.Http.Uploads
import Noxide.Jobs.AtMostOnce
import Noxide.Jobs.Bounds
import Noxide.Jobs.Fencing
import Noxide.Jobs.Frames
import Noxide.Jobs.Moves
import Noxide.Jobs.Operations
import Noxide.Jobs.Queue
import Noxide.Jobs.Turns
import Noxide.Jobs.Workers
import Noxide.Library.Acyclic
import Noxide.Library.Avoids
import Noxide.Library.Bounds
import Noxide.Library.Checked
import Noxide.Library.Decimal
import Noxide.Library.Disk
import Noxide.Library.FormUrlencoded
import Noxide.Library.JsonText
import Noxide.Library.LittleEndian
import Noxide.Library.Matching
import Noxide.Library.MergedScan
import Noxide.Library.Metered
import Noxide.Library.Paging
import Noxide.Library.PercentEncoding
import Noxide.Library.Quota
import Noxide.Library.Recency
import Noxide.Library.Runs
import Noxide.Library.Sql
import Noxide.Library.Table
import Noxide.Library.Transition
import Noxide.Library.Turns
import Noxide.Protocol.Manifest
import Noxide.Protocol.NormalForm
import Noxide.Protocol.Scalar
import Noxide.Repository.Computation
import Noxide.Repository.Domains
import Noxide.Repository.Expressions
import Noxide.Repository.Frontier
import Noxide.Repository.Soundness
import Noxide.Store.Clock
import Noxide.Store.Commit
import Noxide.Store.Conversion
import Noxide.Store.Edits
import Noxide.Store.Lifecycle
import Noxide.Store.Meter
import Noxide.Store.Observations
import Noxide.Store.Providers
import Noxide.Store.Receipts
import Noxide.Store.Records
import Noxide.Store.Runtime
