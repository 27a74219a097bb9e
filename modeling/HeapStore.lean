import HeapStore.Catalog
import HeapStore.Demo
import HeapStore.Engine.Rows
import HeapStore.Engine.Scan
import HeapStore.Lock.Manager
import HeapStore.Main
import HeapStore.Proofs.Lock.Modes
import HeapStore.Proofs.Lock.Safety
import HeapStore.Proofs.Page.WellFormed
import HeapStore.Proofs.Page.RoundTrip
import HeapStore.Proofs.Page.Changes
import HeapStore.Proofs.Record.Grammar
import HeapStore.Proofs.Page.Grammar
import HeapStore.Proofs.Page.Views
import HeapStore.Proofs.File.Blocks
import HeapStore.Proofs.Cache.Copies
import HeapStore.Proofs.Cache.Tracking
import HeapStore.Proofs.Engine.Ends
import HeapStore.Proofs.Engine.Content
import HeapStore.Proofs.Engine.Updates
import HeapStore.Proofs.Engine.Pages
import HeapStore.Proofs.Engine.Rows
import HeapStore.Proofs.Engine.Scans
import HeapStore.Proofs.Engine.Tables
import HeapStore.Proofs.Engine.Calls
import HeapStore.Proofs.Engine.Runs
import HeapStore.Proofs.Engine.Places
import HeapStore.Proofs.Engine.Durability
import HeapStore.Proofs.Engine.Footprint
import HeapStore.Proofs.Engine.Isolation
import HeapStore.Proofs.Engine.Moves
import HeapStore.Proofs.Engine.Latest
import HeapStore.Proofs.Engine.Ready
import HeapStore.Proofs.Engine.Twins
import HeapStore.Proofs.Engine.TwinRows
import HeapStore.Proofs.Engine.Fresh
import HeapStore.Proofs.Engine.Capacity
import HeapStore.Proofs.Lock.Queue
import HeapStore.Proofs.Lock.Waiting
import HeapStore.Proofs.Lock.Wakeups
import HeapStore.Proofs.Lock.Overtaking
import HeapStore.Proofs.Lock.Cascade
import HeapStore.Proofs.File.Arrays
import HeapStore.Proofs.Cache.Eviction
import HeapStore.Proofs.Engine.Accesses
import HeapStore.Proofs.Engine.OnDisk
import HeapStore.Proofs.Engine.Cursors
import HeapStore.Proofs.Engine.Pins
import HeapStore.Proofs.Engine.Replacement
import HeapStore.Proofs.Lock.Index
import HeapStore.Proofs.Page.Slots
import HeapStore.Proofs.Page.Names
import HeapStore.Proofs.Engine.Names
import HeapStore.Proofs.Engine.FirstFit
import HeapStore.Proofs.Lock.Withdrawal
import HeapStore.Proofs.Engine.Failures
import HeapStore.Proofs.Engine.Sweeps
import HeapStore.Proofs.Cache.AccessOrder
import HeapStore.Proofs.Page.Emptiness
import HeapStore.Proofs.Lock.Unawaited
import HeapStore.Proofs.Engine.Acts
import HeapStore.Proofs.Engine.AtWork
import HeapStore.Proofs.Engine.LocksTaken
import HeapStore.Proofs.Engine.WriteOut
import HeapStore.Proofs.Page.Layout
import HeapStore.Proofs.Engine.Catalog
