import Sekkeizu.Semantics.Runs
import Sekkeizu.Semantics.Lists
import Sekkeizu.Semantics.Scanner
import Sekkeizu.Semantics.Tables
import Sekkeizu.Semantics.Families
import Sekkeizu.Semantics.Sessions
import Sekkeizu.Semantics.Intervals
import Sekkeizu.Semantics.Accounts
import Sekkeizu.Semantics.Totals
import Sekkeizu.Semantics.Selections
import Sekkeizu.Semantics.Ownership
import Sekkeizu.Semantics.Mutexes
import Sekkeizu.Semantics.Settling
import Sekkeizu.Semantics.Serial
import Sekkeizu.Semantics.Potentials
import Sekkeizu.Semantics.Thresholds
import Sekkeizu.Semantics.Throttles
import Sekkeizu.Semantics.Reservoirs
import Sekkeizu.Semantics.Overrides
import Sekkeizu.Semantics.Lives
import Sekkeizu.Semantics.Simulations
import Sekkeizu.Database.Transaction
import Sekkeizu.Database.Queue
import Sekkeizu.Database.World
import Sekkeizu.Database.Moves
import Sekkeizu.Database.Ledger
import Sekkeizu.Database.Batches
import Sekkeizu.Database.Dispatch
import Sekkeizu.Database.Deletion
import Sekkeizu.Database.Independence
import Sekkeizu.Database.Family
import Sekkeizu.Database.Progress
import Sekkeizu.Database.Callables
import Sekkeizu.Database.Completion
import Sekkeizu.Database.Bulk
import Sekkeizu.Database.Creation
import Sekkeizu.Database.Creations
import Sekkeizu.Database.Applied
import Sekkeizu.Database.Store
import Sekkeizu.Database.Underway
import Sekkeizu.Database.Contents
import Sekkeizu.Database.Draining
import Sekkeizu.Database.Cadence
import Sekkeizu.Database.Deployment
import Sekkeizu.Database.Outages
import Sekkeizu.Database.Registry
import Sekkeizu.Database.Turnover
import Sekkeizu.Network.Plugin
import Sekkeizu.Network.Sections
import Sekkeizu.Network.Lifecycle
import Sekkeizu.Network.Buffers
import Sekkeizu.Network.Delivery
import Sekkeizu.Network.Conservation
import Sekkeizu.Network.Representation
import Sekkeizu.Network.Service
import Sekkeizu.Network.Coreloop
import Sekkeizu.Network.Units
import Sekkeizu.Network.Custody
import Sekkeizu.Network.Receives
import Sekkeizu.Network.Losses
import Sekkeizu.Network.Memory
import Sekkeizu.Network.Locks
import Sekkeizu.Network.Places
import Sekkeizu.Network.Holding
import Sekkeizu.Network.Deadlock
import Sekkeizu.Network.Pacing
import Sekkeizu.Network.Scheduled
import Sekkeizu.Network.Linearization
import Sekkeizu.Network.Parties
import Sekkeizu.Network.Atomicity
import Sekkeizu.Network.Interleavings
import Sekkeizu.Bson.Reflection
import Sekkeizu.Bson.RoundTrip
import Sekkeizu.Bson.Embedded
import Sekkeizu.Bson.Flat
import Sekkeizu.Bson.Integers
import Sekkeizu.Bson.Release
import Sekkeizu.Bson.Leaves
import Sekkeizu.Bson.Hashes
