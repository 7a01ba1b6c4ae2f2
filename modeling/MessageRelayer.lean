import MessageRelayer.Lib.Prog
import MessageRelayer.Lib.Map
import MessageRelayer.Lib.Runs
import MessageRelayer.Basic
import MessageRelayer.Wire
import MessageRelayer.Files
import MessageRelayer.Checkpoint
import MessageRelayer.Checkpoint.Agree
import MessageRelayer.Checkpoint.Cursor
import MessageRelayer.Chain
import MessageRelayer.Source.Scan
import MessageRelayer.Source.Heard
import MessageRelayer.Source.Cursor
import MessageRelayer.Work.Store
import MessageRelayer.Work.Facts
import MessageRelayer.Work.Disk
import MessageRelayer.Work.Lap
import MessageRelayer.Work.Laps
import MessageRelayer.Source.Host
import MessageRelayer.Source.NoLoss
import MessageRelayer.Delivery.Job
import MessageRelayer.Delivery.FailedRetry
import MessageRelayer.Delivery.Budget
import MessageRelayer.Delivery.Revert
import MessageRelayer.Delivery.Reconcile
import MessageRelayer.Delivery.HandleJob
import MessageRelayer.Delivery.Outcome
import MessageRelayer.Delivery.Receipt
import MessageRelayer.Delivery.RevertText
import MessageRelayer.Delivery.Retries
import MessageRelayer.Delivery.TopUp
import MessageRelayer.Pool.State
import MessageRelayer.AttestorSet
import MessageRelayer.Pool.Ops
import MessageRelayer.Pool.Facts
import MessageRelayer.Pool.Routes
import MessageRelayer.Pool.Tidy
import MessageRelayer.Pool.Refill
import MessageRelayer.Pool.Reobserve
import MessageRelayer.Pool.Slots
import MessageRelayer.Pool.VoteOrder
import MessageRelayer.Pool.EarlyVotes
import MessageRelayer.Pool.Quorum
import MessageRelayer.Pool.Invalid
import MessageRelayer.Pool.Accounts
import MessageRelayer.Pool.Loop
import MessageRelayer.Pool.InFlight
import MessageRelayer.SetUpdate.State
import MessageRelayer.SetUpdate.Steps
import MessageRelayer.SetUpdate.Quorum
import MessageRelayer.SetUpdate.Canonical
import MessageRelayer.SetUpdate.Guard
import MessageRelayer.Broadcast.Locks
import MessageRelayer.Broadcast.Nonces
import MessageRelayer.Pending
import MessageRelayer.Tracking
import MessageRelayer.ProofGen
import MessageRelayer.Backoff
import MessageRelayer.Health
import MessageRelayer.Config.Route
import MessageRelayer.Config.Start
import MessageRelayer.Config.Quorum
import MessageRelayer.Claim.Submit
import MessageRelayer.Claim.Worker
import MessageRelayer.Claim.Facts
import MessageRelayer.Claim.Run
import MessageRelayer.Claim.Cursor
import MessageRelayer.Claim.Custody
import MessageRelayer.Observer.Json
import MessageRelayer.Observer.Events
import MessageRelayer.Observer.Client
import MessageRelayer.Observer.Path
import MessageRelayer.Lib.JsonText
import MessageRelayer.Observer.Replies
import MessageRelayer.P2p.Verdict
import MessageRelayer.P2p.Peers
import MessageRelayer.Relay.Steps
import MessageRelayer.Relay.Stable
import MessageRelayer.Ack.History
import MessageRelayer.Ack.Pieces
import MessageRelayer.Ack.Coverage
import MessageRelayer.Ack.Settle
import MessageRelayer.Ack.Release
import MessageRelayer.Ack.Worker
import MessageRelayer.Ack.Queue
import MessageRelayer.Ack.Run
import MessageRelayer.Ack.Cursor
import MessageRelayer.Outcome
import MessageRelayer.Lib.Utf8
import MessageRelayer.Pacing
import MessageRelayer.Delivery.SendLoop
import MessageRelayer.Delivery.Sends
import MessageRelayer.Relay.Jobs
import MessageRelayer.Relay.Watch
import MessageRelayer.Relay.Fleet
import MessageRelayer.Relay.Provenance
import MessageRelayer.Lib.Loop
import MessageRelayer.Liveness
import MessageRelayer.Delivery.Pulse
import MessageRelayer.Polling
import MessageRelayer.Lib.Fanout
import MessageRelayer.Observer.Hub
import MessageRelayer.Pool.Isolation
import MessageRelayer.Lib.Abi
import MessageRelayer.Relay.Votes
import MessageRelayer.Config.Routes
import MessageRelayer.Work.Refine
import MessageRelayer.Pool.Backpressure
import MessageRelayer.Refreshing
