import CheckpointStore.Foundation.UnorderedMap
import CheckpointStore.Foundation.Procedure
import CheckpointStore.Foundation.Runs
import CheckpointStore.Foundation.Decoding
import CheckpointStore.Foundation.Filling
import CheckpointStore.Model.Base
import CheckpointStore.Model.Enums
import CheckpointStore.Model.Digest
import CheckpointStore.Model.Records
import CheckpointStore.Model.Sha256
import CheckpointStore.Model.BinFormat
import CheckpointStore.Storage.Backend
import CheckpointStore.Storage.Chunking
import CheckpointStore.Storage.Dedup
import CheckpointStore.Store.ProtectedSet
import CheckpointStore.Store.State
import CheckpointStore.Store.Publish
import CheckpointStore.Store.PublishSteps
import CheckpointStore.Store.Families
import CheckpointStore.Store.Retention
import CheckpointStore.Store.Gc
import CheckpointStore.Store.Restore
import CheckpointStore.Store.Frame
import CheckpointStore.Persistence.RecordCodec
import CheckpointStore.Persistence.StateFile
import CheckpointStore.Persistence.RoundTrip
import CheckpointStore.Persistence.Recovery
import CheckpointStore.Persistence.Reload
import CheckpointStore.Runs.Operations
import CheckpointStore.Runs.Registry
import CheckpointStore.Safety.References
import CheckpointStore.Safety.Stock
import CheckpointStore.Safety.Identities
import CheckpointStore.Safety.Restorable
import CheckpointStore.Safety.Collection
import CheckpointStore.Safety.Rollback
import CheckpointStore.Safety.Entries
import CheckpointStore.Safety.Records
import CheckpointStore.Safety.Bookkeeping
import CheckpointStore.Safety.Recovered
import CheckpointStore.Safety.Restart
import CheckpointStore.Safety.Rejection
import CheckpointStore.Safety.Saving
import CheckpointStore.Foundation.Saturation
import CheckpointStore.Store.Protection
import CheckpointStore.Coordinator.Dispatch
import CheckpointStore.Coordinator.Authority
import CheckpointStore.Coordinator.Policies
import CheckpointStore.Safety.Integrity
import CheckpointStore.Safety.Inventory
import CheckpointStore.Safety.Completeness
import CheckpointStore.Coordinator.Frames
import CheckpointStore.Persistence.Parsing
import CheckpointStore.Safety.Reloading
import CheckpointStore.Safety.Eligibility
import CheckpointStore.Store.Looking
import CheckpointStore.Safety.Finality
import CheckpointStore.Safety.Durability
import CheckpointStore.Safety.Commitment
import CheckpointStore.Safety.Counters
import CheckpointStore.Safety.Agreement
import CheckpointStore.Safety.RecordSteps
import CheckpointStore.Safety.Protections
import CheckpointStore.Foundation.LastOf
import CheckpointStore.Safety.Windows
import CheckpointStore.Safety.Tampering
import CheckpointStore.Store.Writing
import CheckpointStore.Store.Exceptions
import CheckpointStore.Coordinator.Serving
import CheckpointStore.Coordinator.Streaming
import CheckpointStore.Safety.Manifests
import CheckpointStore.Storage.Keys
import CheckpointStore.Safety.Layouts
import CheckpointStore.Safety.Sharing
import CheckpointStore.Safety.Leftovers
import CheckpointStore.Safety.Fallback
import CheckpointStore.Storage.SyntheticBackend
import CheckpointStore.Foundation.Sha2
import CheckpointStore.Model.Sha256Refinement
import CheckpointStore.Foundation.Programs
import CheckpointStore.Model.MachineReader
import CheckpointStore.Persistence.Confinement
import CheckpointStore.Storage.LocalRefinement
import CheckpointStore.Safety.Sessions
