import DreamingOS.V3.Ack
import DreamingOS.V3.PushSafe
import DreamingOS.V2.Safety
import DreamingOS.Snapshot.Isolation
import DreamingOS.Snapshot.Restore
import DreamingOS.SafeOps.Lease
import DreamingOS.SafeOps.Sequence
import DreamingOS.Ap.Duplicate
import DreamingOS.Cloud.Receive
import DreamingOS.Cloud.SessionSafety
import DreamingOS.Export.Availability
import DreamingOS.WanSla.Run
import DreamingOS.WanSla.FixedPoint
import DreamingOS.Direction.Agree
import DreamingOS.Direction.Complete
import DreamingOS.ConfigJob.Run
import DreamingOS.Bgapi.Run
import DreamingOS.Quota.Charges
import DreamingOS.Quota.Ledger
import DreamingOS.WebSession.Run
import DreamingOS.DnsPolicy.LeaseRun
import DreamingOS.Upload.Reclaim
import DreamingOS.AdminTxn.Atomic
import DreamingOS.Qoe.Bucket
import DreamingOS.Nft.Apply
import DreamingOS.RadioJob.Run
import DreamingOS.Metrics.Usage
import DreamingOS.Metrics.SampleRun
import DreamingOS.ApiKey.Verdict
import DreamingOS.V3.Completeness
import DreamingOS.Route.Metric
import DreamingOS.V2.NaiveSearch
import DreamingOS.Cloud.Schemas
import DreamingOS.ReadCache.Run
import DreamingOS.AsyncQuery.Run
import DreamingOS.TxPower.Request
import DreamingOS.Cloud.Base64
import DreamingOS.RouteMark.Run
import DreamingOS.Passkey.CborSafe
import DreamingOS.Paircode.Damage
import DreamingOS.Paircode.RoundTrip
import DreamingOS.Geoip.Aggregate
import DreamingOS.Qoe.Preferred
import DreamingOS.V3.ChainSafe
import DreamingOS.SecretRotation.Digest
