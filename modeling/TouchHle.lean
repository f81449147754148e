import TouchHle.Memory.MmapRuns
import TouchHle.Memory.Coverage
import TouchHle.Threads.CondObjects
import TouchHle.Threads.Conservation
import TouchHle.Threads.LockBalance
import TouchHle.Threads.MutualExclusion
import TouchHle.Threads.Once
import TouchHle.Threads.SchedulingPass
import TouchHle.Loader.LoadOrder
import TouchHle.Loader.OwnEntry
import TouchHle.Filesystem.HostCoherence
import TouchHle.Objc.Zeroing
import TouchHle.Objc.AssociationOwnership
import TouchHle.Objc.PoolDraining
import TouchHle.Objc.ImpStability
import TouchHle.Objc.Introspection
import TouchHle.Objc.Reconciliation
import TouchHle.Objc.Initialize
import TouchHle.Foundation.JsonAcceptance
import TouchHle.Foundation.JsonRoundTrip
import TouchHle.Foundation.DictionaryOwnership
import TouchHle.Foundation.OperationRuns
import TouchHle.Foundation.NotificationOwnership
import TouchHle.Foundation.TimerPlacement
import TouchHle.Stdio.Printing
import TouchHle.Foundation.KeyEquality
import TouchHle.Trainer.Commands
import TouchHle.Xml.HandleRuns
import TouchHle.Joins.Delivery
import TouchHle.Font.Faithful
import TouchHle.Url.Resolution
import TouchHle.Abi.RoundTrip
import TouchHle.Strings.SearchAgreement
import TouchHle.Strings.CharacterSetRuns
import TouchHle.Foundation.OrderedSetRuns
import TouchHle.Audio.WholeFrames
import TouchHle.Crypto.Digests
import TouchHle.Crypto.Retry
import TouchHle.Http.RoundTrip
import TouchHle.Foundation.GetBytes
import TouchHle.Trainer.HackReloads
import TouchHle.Strings.PathAlgorithms
import TouchHle.Strings.LineRange
import TouchHle.Strings.Fnmatch
import TouchHle.Foundation.DelayedPerforms
import TouchHle.Foundation.KeyValueObserving
import TouchHle.Threads.RefusedCalls
import TouchHle.Dispatch.Queues
import TouchHle.Objc.PropertySetters
import TouchHle.Foundation.PercentEscapes
import TouchHle.Filesystem.Glob
import TouchHle.Foundation.DecoderBalance
import TouchHle.Stdlib.Sorting
import TouchHle.Filesystem.Enumeration
import TouchHle.Filesystem.RecordLocks
import TouchHle.Filesystem.Access
import TouchHle.Filesystem.ReadBack
import TouchHle.Filesystem.Descriptors
import TouchHle.Stdio.BoundedOutput
import TouchHle.Stdio.FormatIndex
import TouchHle.Time.Formatting
import TouchHle.Stdlib.FloatScan
