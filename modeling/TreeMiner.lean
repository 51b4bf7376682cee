import TreeMiner.Lib.Run
import TreeMiner.Platform.Replay
import TreeMiner.Platform.LeaseSafety
import TreeMiner.Miner.Difficulty
import TreeMiner.Submit.Parts
import TreeMiner.Submit.Interleave
import TreeMiner.Submit.Lifecycle
import TreeMiner.Submit.Unpark
import TreeMiner.Submit.Window
import TreeMiner.Core.JsonTree
import TreeMiner.Lib.Json
import TreeMiner.Submit.JsonField
import TreeMiner.Submit.Confirm
import TreeMiner.Journal.Durability
import TreeMiner.Submit.Outage
import TreeMiner.Platform.Proto
import TreeMiner.Platform.Dispatch
import TreeMiner.Platform.Rejected
import TreeMiner.Platform.Acceptance
import TreeMiner.Platform.Pause
import TreeMiner.Miner.Work
import TreeMiner.Platform.Attribution
import TreeMiner.Kernel.Wave
import TreeMiner.Miner.Find
import TreeMiner.Miner.Capture
import TreeMiner.Kernel.Oneshot
import TreeMiner.Platform.Render
import TreeMiner.Server.Signer
import TreeMiner.Server.Agreement
import TreeMiner.Lib.Connection
import TreeMiner.Lib.Table
import TreeMiner.Server.Store
import TreeMiner.Server.Bank
import TreeMiner.Server.Atomic
import TreeMiner.Server.Ledger
import TreeMiner.Server.Money
import TreeMiner.Server.Rental
import TreeMiner.Server.Settled
import TreeMiner.Submit.ConfirmBody
import TreeMiner.Journal.Restart
import TreeMiner.Server.Wallets
import TreeMiner.Server.Broker
import TreeMiner.Server.Watcher
import TreeMiner.Lib.Cycle
import TreeMiner.Miner.Devfee
import TreeMiner.Lib.Sql
import TreeMiner.Server.Migrate
import TreeMiner.Server.Migrated
import TreeMiner.Server.Rent
import TreeMiner.Journal.CppSink
import TreeMiner.Journal.Mutual
import TreeMiner.Server.Matching
import TreeMiner.Server.Served
import TreeMiner.Lib.Calendar
import TreeMiner.Submit.CivilTime
import TreeMiner.Lib.Digits
import TreeMiner.Submit.HttpDate
import TreeMiner.Submit.IsoOrder
import TreeMiner.Submit.DateRange
import TreeMiner.Submit.Verdict
import TreeMiner.Lib.CharBoundary
import TreeMiner.Miner.Outcome
import TreeMiner.Submit.Quiesce
import TreeMiner.Submit.Schedule
import TreeMiner.Submit.Selection
import TreeMiner.Miner.Discipline
import TreeMiner.Lib.Blake2b
import TreeMiner.Lib.Prehash
import TreeMiner.Miner.Attempts
import TreeMiner.Host.Argon2
import TreeMiner.Kernel.Blake2b
import TreeMiner.Kernel.FirstBlocks
import TreeMiner.Kernel.Launch
import TreeMiner.Host.Finalize
import TreeMiner.Lib.WorkQueue
import TreeMiner.Host.Batch
import TreeMiner.Config.Manager
import TreeMiner.Config.App
import TreeMiner.Config.Resolve
import TreeMiner.Config.Kept
import TreeMiner.Host.BatchSize
import TreeMiner.Server.Topics
import TreeMiner.Lib.Base128
import TreeMiner.Server.Packets
import TreeMiner.Config.Text
import TreeMiner.Platform.Redact
import TreeMiner.Platform.BrokerUri
import TreeMiner.Server.Billing
import TreeMiner.Server.Billed
import TreeMiner.Miner.SameFinds
import TreeMiner.Server.Earnings
import TreeMiner.Gpu.Runner
import TreeMiner.Lib.Triple
import TreeMiner.Gpu.Backend
import TreeMiner.Gpu.Launched
import TreeMiner.Gpu.Staged
import TreeMiner.Gpu.Pool
import TreeMiner.Gpu.Device
import TreeMiner.Submit.Backoff
import TreeMiner.Kernel.Reference
import TreeMiner.Platform.Nonces
import TreeMiner.Lib.Base64
import TreeMiner.Miner.Phc
import TreeMiner.Lib.Fifo
import TreeMiner.Platform.Intake
import TreeMiner.Server.Login
import TreeMiner.Server.Access
import TreeMiner.Server.Chain
import TreeMiner.Host.Cpp
import TreeMiner.Submit.OnChain
import TreeMiner.Host.Request
import TreeMiner.Host.CppBatch
import TreeMiner.Platform.Transport
import TreeMiner.Platform.Reconnect
