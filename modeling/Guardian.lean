import Guardian.Account.InOrder
import Guardian.Client.GetDeltas
import Guardian.Evm.Approvals
import Guardian.Evm.U256
import Guardian.Dashboard.Stats
import Guardian.Jobs.ReconcileDue
import Guardian.Storage.RecentCandidates
import Guardian.Execution.Sent
import Guardian.Multisig.Admission
import Guardian.Proposals.Approvals
import Guardian.Proposals.SameVerdicts
import Guardian.Retention.Agreement
import Guardian.Safety.FullPass
import Guardian.Safety.PathPromotion
import Guardian.Metadata.Agreement
import Guardian.Session.Revocation
import Guardian.Signing.ClientAgreement
import Guardian.Signing.GrpcPayload
import Guardian.Signing.Separation
import Guardian.Safety.Abandon
import Guardian.Safety.AcceptedOnce
import Guardian.Safety.Admission
import Guardian.Safety.AdmissionTail
import Guardian.Safety.AuthMatches
import Guardian.Safety.Committed
import Guardian.Safety.LeaseOrder
import Guardian.Safety.Listed
import Guardian.Safety.MergedDelta
import Guardian.Safety.Outcome
import Guardian.Safety.PassWrites
import Guardian.Safety.Queue
import Guardian.Safety.Recorded
import Guardian.Safety.Reservation
import Guardian.Safety.SendOnce
import Guardian.Safety.StreakPasses
import Guardian.Middleware.RateLimit
import Guardian.ReleaseSweep.Candidates
import Guardian.ReleaseSweep.History
import Guardian.ReleaseSweep.Visits
import Guardian.Replay.Expansion
import Guardian.Safety.WalkCovers
import Guardian.Storage.Agreement
import Guardian.Storage.Encryption
import Guardian.Client.Overwrite
import Guardian.Safety.FileEndings
import Guardian.Services.TimestampSkew
import Guardian.Retry.Agreement
import Guardian.Safety.Orphans
import Guardian.Safety.SkippedBlocks
import Guardian.Safety.ObservationsKept
import Guardian.BlockWatch.Transport
import Guardian.Safety.LoginOnce
import Guardian.Dashboard.GlobalReadings
