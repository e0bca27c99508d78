import Zen.Lib.Reader
import Zen.Lib.Audit
import Zen.Lib.BitMask
import Zen.Lib.Context
import Zen.Lib.Custody
import Zen.Lib.Fallible
import Zen.Lib.Framing
import Zen.Lib.Ledger
import Zen.Lib.LittleEndian
import Zen.Lib.OrdMap
import Zen.Lib.PrefixCode
import Zen.Lib.Wp
import Zen.Lib.Relational
import Zen.Lib.Reports
import Zen.Lib.Run
import Zen.Core.Bytes
import Zen.Core.Schema
import Zen.Core.Value
import Zen.Core.Access
import Zen.Core.Base64
import Zen.Core.Binary
import Zen.Core.Json
import Zen.Core.Gate
import Zen.Core.Utf8
import Zen.Core.Native
import Zen.Core.Registry
import Zen.Core.Serialize
import Zen.Core.Compat
import Zen.Switchboard.Message
import Zen.Switchboard.Switchboard
import Zen.Switchboard.Machine
import Zen.Switchboard.Behaviour
import Zen.Kernel.SchemaCodec
import Zen.Kernel.Seam
import Zen.Kernel.Kernel
import Zen.Kernel.System
import Zen.Kernel.Unguarded
import Zen.Author.Shape
import Zen.Author.Shard
import Zen.Isolation.Protocol
import Zen.Isolation.Channel
import Zen.Isolation.Link
import Zen.Isolation.Host
import Zen.Isolation.Cgroup
import Zen.Isolation.System
import Zen.Isolation.Wire
import Zen.Isolation.Child
import Zen.Isolation.ViewPlan
import Zen.Spec.Native
import Zen.Spec.Agreement
import Zen.Spec.Amplification
import Zen.Spec.Cgroup
import Zen.Spec.Channel
import Zen.Spec.Json
import Zen.Spec.Compat
import Zen.Spec.ContentId
import Zen.Spec.Custody
import Zen.Spec.Descriptor
import Zen.Spec.Manifest
import Zen.Spec.Position
import Zen.Spec.Recursion
import Zen.Spec.Report
import Zen.Spec.Shape
import Zen.Spec.Utf8
import Zen.Spec.Varint
import Zen.Spec.ViewPlan
import Zen.Proof.Core.Agreement
import Zen.Proof.Core.Varint
import Zen.Proof.Core.Binary
import Zen.Proof.Core.Canonical
import Zen.Proof.Core.Encode
import Zen.Proof.Core.Gate
import Zen.Proof.Core.Conform
import Zen.Proof.Core.Decode
import Zen.Proof.Core.RoundTrip
import Zen.Proof.Core.Serialize
import Zen.Proof.Core.Wire
import Zen.Proof.Core.Amplification
import Zen.Proof.Core.Base64
import Zen.Proof.Core.JsonTokens
import Zen.Proof.Core.JsonStrings
import Zen.Proof.Core.Json
import Zen.Proof.Core.Report
import Zen.Proof.Core.Compat
import Zen.Proof.Core.CompatTexts
import Zen.Proof.Core.CompatRoundTrip
import Zen.Proof.Core.ContentId
import Zen.Proof.Core.Position
import Zen.Proof.Core.Unique
import Zen.Proof.Core.Utf8
import Zen.Proof.Switchboard.Effects
import Zen.Proof.Switchboard.Refinement
import Zen.Proof.Switchboard.Records
import Zen.Proof.Switchboard.Fifo
import Zen.Proof.Switchboard.Budget
import Zen.Proof.Switchboard.Callbacks
import Zen.Proof.Switchboard.View
import Zen.Proof.Switchboard.Conduct
import Zen.Proof.Switchboard.Deaths
import Zen.Proof.Switchboard.Lifecycle
import Zen.Proof.Switchboard.Noninterference
import Zen.Proof.Switchboard.Registration
import Zen.Proof.Switchboard.Safety
import Zen.Proof.Switchboard.Throw
import Zen.Proof.Kernel.SchemaCodec
import Zen.Proof.Kernel.Consumers
import Zen.Proof.Kernel.Rules
import Zen.Proof.Kernel.Opening
import Zen.Proof.Kernel.Manifest
import Zen.Proof.Kernel.Reload
import Zen.Proof.Kernel.System
import Zen.Proof.Kernel.Custody
import Zen.Proof.Kernel.HotReload
import Zen.Proof.Kernel.CustodyRuns
import Zen.Proof.Kernel.Descriptor
import Zen.Proof.Kernel.RoundTrip
import Zen.Proof.Kernel.Recursion
import Zen.Proof.Kernel.Refusal
import Zen.Proof.Author.Shape
import Zen.Proof.Author.Shard
import Zen.Proof.Isolation.Wire
import Zen.Proof.Isolation.Spawn
import Zen.Proof.Isolation.Buffers
import Zen.Proof.Isolation.Calls
import Zen.Proof.Isolation.Cgroup
import Zen.Proof.Isolation.Child
import Zen.Proof.Isolation.Confinement
import Zen.Proof.Isolation.Links
import Zen.Proof.Isolation.Recovery
import Zen.Proof.Isolation.Mounting
import Zen.Proof.Isolation.Steps
import Zen.Proof.Isolation.Invariant
import Zen.Proof.Isolation.Cleanup
import Zen.Proof.Isolation.Crossing
import Zen.Proof.Isolation.Snapshot
import Zen.Proof.Isolation.Notices
import Zen.Proof.Isolation.Supervision
import Zen.Proof.Isolation.Delivery
import Zen.Proof.Isolation.Lineage
import Zen.Proof.Isolation.ViewPlan
import Zen.Proof.Isolation.Vouching
import Zen.Lib.Simulation
import Zen.Proof.Core.Canon
import Zen.Proof.Switchboard.Shown
import Zen.Lib.Dialogue
import Zen.Switchboard.Handlers
import Zen.Proof.Switchboard.Substitution
import Zen.Kernel.Export
import Zen.Kernel.Delivery
import Zen.Proof.Kernel.Export
import Zen.Proof.Kernel.Portable
import Zen.Spec.Direct
import Zen.Proof.Kernel.Catalogue
import Zen.Proof.Kernel.Direct
import Zen.Kernel.Control
import Zen.Proof.Kernel.Operations
import Zen.Proof.Kernel.Control
import Zen.Proof.Kernel.Capability
