import SortedCollections.GapBuffer.Command
import SortedCollections.GapBuffer.Lemmas
import SortedCollections.Merge.Command
import SortedCollections.Merge.Trace
import SortedCollections.Session.Basic
import SortedCollections.Value.Lists
import SortedCollections.Merge.Memory
import SortedCollections.Merge.Asking
import SortedCollections.Proofs.Order
import SortedCollections.Proofs.Traversal
import SortedCollections.Proofs.Sorting.Boundary
import SortedCollections.Proofs.Sorting.Insertion
import SortedCollections.Proofs.Sorting.Merging
import SortedCollections.Proofs.Sorting.Stable
import SortedCollections.Proofs.Merge.Schedule
import SortedCollections.Proofs.Merge.Walk
import SortedCollections.Proofs.Merge.Simulation
import SortedCollections.Proofs.Merge.Record
import SortedCollections.Proofs.Merge.Linear
import SortedCollections.Proofs.Merge.InPlace
import SortedCollections.Proofs.Merge.Library
import SortedCollections.Proofs.Merge.Safety
import SortedCollections.Proofs.Merge.Refinement
import SortedCollections.Proofs.Sets.Deduplication
import SortedCollections.Proofs.Merge.Pairing
import SortedCollections.Proofs.Merge.Rules
import SortedCollections.Proofs.Merge.Probe
import SortedCollections.Proofs.Merge.EarlyExit
import SortedCollections.Proofs.Merge.Asking
import SortedCollections.Proofs.Merge.Joins
import SortedCollections.Proofs.Sets.Cofinite
import SortedCollections.Proofs.Sets.InPlace
import SortedCollections.Proofs.Sets.Program
import SortedCollections.Proofs.Sets.Relations
import SortedCollections.Proofs.Maps.Entries
import SortedCollections.Proofs.Maps.Canonical
import SortedCollections.Proofs.Maps.Program
import SortedCollections.Proofs.Maps.Uniqueness
import SortedCollections.Storage
import SortedCollections.Proofs.Storage
import SortedCollections.Proofs.Values.Integers
import SortedCollections.Proofs.Session.Members
import SortedCollections.Proofs.Session.InPlace
import SortedCollections.Proofs.Sets.Elements
import SortedCollections.Proofs.Sets.Lists
import SortedCollections.Proofs.Construction
import SortedCollections.Proofs.Edits
import SortedCollections.Proofs.Maps.Merging
import SortedCollections.Proofs.Maps.Functions
import SortedCollections.Proofs.Session.Calls
import SortedCollections.Proofs.Session.Sets
import SortedCollections.Proofs.Session.Maps
import SortedCollections.Proofs.Session.Construction
import SortedCollections.Proofs.Session.SingleEntries
import SortedCollections.Proofs.GapBuffer.Queues
import SortedCollections.Proofs.Merge.Drivers
import SortedCollections.Proofs.Restoring
import SortedCollections.Proofs.Session.Restoring
import SortedCollections.Proofs.Lookups
import SortedCollections.Proofs.Values.Content
import SortedCollections.Proofs.Session.Lookups
import SortedCollections.Proofs.Sets.Occurrences
import SortedCollections.Proofs.Merge.Regrouping
import SortedCollections.Proofs.Values.Levels
import SortedCollections.Proofs.Merge.Ties
import SortedCollections.Proofs.Session.Comparisons
import SortedCollections.Proofs.Session.Equality
import SortedCollections.Proofs.InsertionPoints
import SortedCollections.Proofs.Merge.Depth
import SortedCollections.Proofs.GapBuffer.Growth
import SortedCollections.Proofs.Maps.Folding
