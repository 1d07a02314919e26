import AasSign.Auth.Cache
import AasSign.Auth.CodeExchange
import AasSign.Auth.Custody
import AasSign.Auth.Interleaving
import AasSign.Auth.Json
import AasSign.Auth.Login
import AasSign.Auth.LoginEffects
import AasSign.Auth.Loopback
import AasSign.Auth.Oidc
import AasSign.Auth.Query
import AasSign.Auth.Refresh
import AasSign.Auth.Session
import AasSign.Cms.Assemble
import AasSign.Cms.Build
import AasSign.Cms.Decision
import AasSign.Cms.EntryPoints
import AasSign.Cms.Extract
import AasSign.Cms.Grammar
import AasSign.Cms.Open
import AasSign.Cms.Parse
import AasSign.Cms.RoundTrip
import AasSign.Cms.SignedAttributes
import AasSign.Cms.Signers
import AasSign.Codec.Base64
import AasSign.Codec.Text
import AasSign.Der.Fields
import AasSign.Der.Integer
import AasSign.Der.ObjectIdentifier
import AasSign.Der.Read
import AasSign.Der.RoundTrip
import AasSign.Der.Sets
import AasSign.Der.Write
import AasSign.Foundation.Base128
import AasSign.Foundation.Contiguous
import AasSign.Foundation.Conversation
import AasSign.Foundation.Entries
import AasSign.Foundation.History
import AasSign.Foundation.Octets
import AasSign.Foundation.Outcome
import AasSign.Foundation.Passes
import AasSign.Foundation.Process
import AasSign.Foundation.Program
import AasSign.Foundation.PutBuffer
import AasSign.Foundation.Ranges
import AasSign.Foundation.Retry
import AasSign.Foundation.Search
import AasSign.Foundation.Sextets
import AasSign.Foundation.Simulation
import AasSign.Foundation.Slots
import AasSign.Foundation.Tlv
import AasSign.Foundation.Transition
import AasSign.Foundation.TwosComplement
import AasSign.Foundation.Unicode
import AasSign.Foundation.Walk
import AasSign.Http.Chunks
import AasSign.Http.Delivery
import AasSign.Http.Framing
import AasSign.Http.Progress
import AasSign.Http.Request
import AasSign.Http.Response
import AasSign.Http.Served
import AasSign.Http.Transient
import AasSign.Http.Transport
import AasSign.Http.Url
import AasSign.Main.Arguments
import AasSign.Main.Defaults
import AasSign.Main.Preparation
import AasSign.Main.Sign
import AasSign.Main.Single
import AasSign.Main.Sweep
import AasSign.Msi.Acceptance
import AasSign.Msi.Accepted
import AasSign.Msi.Budget
import AasSign.Msi.Cabinet
import AasSign.Msi.CabinetAccounting
import AasSign.Msi.CabinetCallbacks
import AasSign.Msi.CabinetContents
import AasSign.Msi.CabinetFormat
import AasSign.Msi.CabinetLayout
import AasSign.Msi.CabinetPatch
import AasSign.Msi.CabinetSoundness
import AasSign.Msi.Committed
import AasSign.Msi.Consistent
import AasSign.Msi.Contents
import AasSign.Msi.Continued
import AasSign.Msi.Discipline
import AasSign.Msi.FileTable
import AasSign.Msi.Idempotent
import AasSign.Msi.Mapping
import AasSign.Msi.Metadata
import AasSign.Msi.Numbers
import AasSign.Msi.OneToOne
import AasSign.Msi.Order
import AasSign.Msi.Preflight
import AasSign.Msi.Renewal
import AasSign.Msi.Restored
import AasSign.Msi.Revision
import AasSign.Msi.Rewrite
import AasSign.Msi.RewriteRules
import AasSign.Msi.SignedPayloads
import AasSign.Msi.SigningOrder
import AasSign.Msi.SigningSteps
import AasSign.Msi.Spared
import AasSign.Msi.Staging
import AasSign.Msi.Tables
import AasSign.Msi.Turns
import AasSign.Msi.Untouched
import AasSign.Platform.AtomicWrite
import AasSign.Platform.AtomicWriteSafety
import AasSign.Platform.Capture
import AasSign.Platform.CommandLine
import AasSign.Platform.Companion
import AasSign.Platform.ConfigDir
import AasSign.Platform.Copy
import AasSign.Platform.Environment
import AasSign.Platform.FileAccess
import AasSign.Platform.FileRules
import AasSign.Platform.Files
import AasSign.Platform.Launch
import AasSign.Platform.Replace
import AasSign.Platform.ReplaceSafety
import AasSign.Platform.RunProcess
import AasSign.Platform.Spawn
import AasSign.Pool.ExactlyOnce
import AasSign.Pool.LineStream
import AasSign.Pool.Narratives
import AasSign.Pool.Summary
import AasSign.Pool.Workers
import AasSign.Runtime
import AasSign.Signing.AllOrNothing
import AasSign.Signing.AzureDelivery
import AasSign.Signing.AzureSign
import AasSign.Signing.NotPe
import AasSign.Signing.PeDecision
import AasSign.Signing.PeSignature
import AasSign.Signing.SignFile
import AasSign.Signing.SigningRules
import AasSign.Signing.Verified
import AasSign.X509.CertId
import AasSign.X509.SplitCerts
