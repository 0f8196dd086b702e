import Evolve.Lib.Machine
import Evolve.Lib.Lists
import Evolve.Lib.Borsh
import Evolve.Lib.Effects
import Evolve.Lib.Trace
import Evolve.Lib.Interleave
import Evolve.Lib.Undo
import Evolve.Lib.Remains
import Evolve.Lib.Heap
import Evolve.Lib.Table
import Evolve.Lib.Concat
import Evolve.Lib.Sorting
import Evolve.Lib.History
import Evolve.Lib.FixedPoint
import Evolve.Lib.Lru
import Evolve.Lib.Durable
import Evolve.Core
import Evolve.Stf.Gas
import Evolve.Stf.ExecutionState
import Evolve.Stf.Environment
import Evolve.Stf.Invoker
import Evolve.Stf.CallTree
import Evolve.Stf.Atomicity
import Evolve.Stf.Transaction
import Evolve.Stf.Accounts
import Evolve.Stf.RuntimeKeys
import Evolve.Stf.FailedTx
import Evolve.Stf.Block
import Evolve.Stf.Trace
import Evolve.Stf.TraceRule
import Evolve.Stf.Nesting
import Evolve.Stf.CallDepth
import Evolve.Stf.Funds
import Evolve.Stf.Isolation
import Evolve.Stf.Metering
import Evolve.Stf.History
import Evolve.Lib.Lockstep
import Evolve.Stf.Congruence
import Evolve.Stf.Retained
import Evolve.Stf.Objects
import Evolve.Stf.UniqueIds
import Evolve.Stf.Events
import Evolve.Stf.GasLimits
import Evolve.Stf.Splits
import Evolve.Stf.Snapshots
import Evolve.Stf.Batches
import Evolve.Stf.Metrics
import Evolve.Stf.Queries
import Evolve.Genesis.File
import Evolve.Genesis.Apply
import Evolve.Genesis.References
import Evolve.Genesis.Validation
import Evolve.Storage.Batch
import Evolve.Storage.Cache
import Evolve.Storage.Sequence
import Evolve.Lib.Ledger
import Evolve.Lib.Refinement
import Evolve.Eth.Envelope
import Evolve.Sdk.Collections
import Evolve.Sdk.StorageCalls
import Evolve.Sdk.Vector
import Evolve.Sdk.Queue
import Evolve.Sdk.UnorderedMap
import Evolve.Sdk.UnorderedMapRuns
import Evolve.Sdk.FixedPoint
import Evolve.Sdk.Token
import Evolve.Sdk.Conservation
import Evolve.Sdk.TokenFrames
import Evolve.Sdk.Scheduler
import Evolve.Sdk.RuntimeOnly
import Evolve.Eth.Registry
import Evolve.Mempool.Pool
import Evolve.Eth.TxContext
import Evolve.Eth.Gateway
import Evolve.Eth.DirectWrites
import Evolve.Mempool.Operations
import Evolve.Mempool.Selection
import Evolve.Mempool.Senders
import Evolve.Rpc.Service
import Evolve.Rpc.Proposal
import Evolve.Rpc.Filter
import Evolve.Rpc.ChainIndex
import Evolve.Rpc.IndexStore
import Evolve.Rpc.IndexCache
import Evolve.Rpc.IndexRuns
import Evolve.Rpc.IndexColumns
import Evolve.Rpc.LatestBlock
import Evolve.Rpc.Logs
import Evolve.Rpc.ReceiptLogs
import Evolve.Rpc.LogStreams
import Evolve.Rpc.InitChain
import Evolve.Rpc.Executions
import Evolve.Rpc.Heights
import Evolve.Rpc.StateRoot
import Evolve.Rpc.Subscriptions
import Evolve.Eth.Eoa
import Evolve.Eth.Authentication
import Evolve.Eth.Nonce
import Evolve.Eth.Replay
import Evolve.Eth.RoundTrip
import Evolve.Eth.RegistryCalls
import Evolve.Eth.RegistryEnds
import Evolve.Eth.RegistryRuns
import Evolve.Eth.Recipient
import Evolve.Rpc.Querier
import Evolve.Server.DevConsensus
import Evolve.Server.Persistence
import Evolve.Rpc.Runner
import Evolve.Rpc.Restarts
import Evolve.Rpc.BlockLinks
import Evolve.Debugger.Trace
import Evolve.Debugger.Replay
import Evolve.Debugger.SnapshotHash
