import S3Orchestrator.Auth.Digest
import S3Orchestrator.Auth.Lifetime
import S3Orchestrator.Auth.Query
import S3Orchestrator.Auth.SigningKey
import S3Orchestrator.Auth.Trailers
import S3Orchestrator.Cleanup.Settled
import S3Orchestrator.Counter.Cycle
import S3Orchestrator.Counter.Redis
import S3Orchestrator.Expiry.Sweep
import S3Orchestrator.Fleet.Latest
import S3Orchestrator.Fleet.Uploads
import S3Orchestrator.Ledger.Deletion
import S3Orchestrator.Ledger.Drain
import S3Orchestrator.Ledger.Owners
import S3Orchestrator.Ledger.TagOwner
import S3Orchestrator.Listing.Exact
import S3Orchestrator.Multipart.Assembly
import S3Orchestrator.Multipart.Listing
import S3Orchestrator.Notify.Outbox
import S3Orchestrator.Object.Copy
import S3Orchestrator.Object.Integrity
import S3Orchestrator.Object.Newest
import S3Orchestrator.Object.Validators
import S3Orchestrator.Provisioning.Authorize
import S3Orchestrator.Provisioning.Publish
import S3Orchestrator.Readpath.Broadcaster
import S3Orchestrator.Reconcile.Mixing
import S3Orchestrator.Reconcile.Pass
import S3Orchestrator.Reconcile.Sorted
import S3Orchestrator.Reconcile.Stream
import S3Orchestrator.StoredForm.Blame
import S3Orchestrator.StoredForm.Exact
import S3Orchestrator.StoredForm.Fetched
import S3Orchestrator.Transport.ClientIP
import S3Orchestrator.Transport.LoginThrottle
import S3Orchestrator.Worker.Budget
import S3Orchestrator.Worker.Replication
import S3Orchestrator.Worker.Walk
