import MeteredFetch.Bucket.Script
import MeteredFetch.Fetcher.Script
import MeteredFetch.Proofs.Bucket.Abandoned
import MeteredFetch.Proofs.Bucket.Books
import MeteredFetch.Proofs.Bucket.Bounds
import MeteredFetch.Proofs.Bucket.Checked
import MeteredFetch.Proofs.Bucket.Conservation
import MeteredFetch.Proofs.Bucket.Elapsed
import MeteredFetch.Proofs.Bucket.Immediate
import MeteredFetch.Proofs.Bucket.Joint
import MeteredFetch.Proofs.Bucket.Ledger
import MeteredFetch.Proofs.Bucket.Line
import MeteredFetch.Proofs.Bucket.Order
import MeteredFetch.Proofs.Bucket.Overlap
import MeteredFetch.Proofs.Bucket.Queue
import MeteredFetch.Proofs.Bucket.Repriced
import MeteredFetch.Proofs.Bucket.Resizing
import MeteredFetch.Proofs.Bucket.Safety
import MeteredFetch.Proofs.Bucket.Signals
import MeteredFetch.Proofs.Bucket.Transition
import MeteredFetch.Proofs.Bucket.Visit
import MeteredFetch.Proofs.Dispatcher.Deeds
import MeteredFetch.Proofs.Executor.Attention
import MeteredFetch.Proofs.Executor.Tasks
import MeteredFetch.Proofs.Fetcher.Accounts
import MeteredFetch.Proofs.Fetcher.Attempts
import MeteredFetch.Proofs.Fetcher.Crew
import MeteredFetch.Proofs.Fetcher.Custody
import MeteredFetch.Proofs.Fetcher.Drained
import MeteredFetch.Proofs.Fetcher.Handover
import MeteredFetch.Proofs.Fetcher.Labour
import MeteredFetch.Proofs.Fetcher.Moves
import MeteredFetch.Proofs.Fetcher.Ownership
import MeteredFetch.Proofs.Fetcher.Payment
import MeteredFetch.Proofs.Fetcher.Reach
import MeteredFetch.Proofs.Fetcher.Refunds
import MeteredFetch.Proofs.Fetcher.Registrations
import MeteredFetch.Proofs.Fetcher.Reports
import MeteredFetch.Proofs.Fetcher.Rest
import MeteredFetch.Proofs.Fetcher.Retries
import MeteredFetch.Proofs.Fetcher.Revocation
import MeteredFetch.Proofs.Fetcher.Scheduling
import MeteredFetch.Proofs.Fetcher.Serving
import MeteredFetch.Proofs.Fetcher.Shutdown
import MeteredFetch.Proofs.Fetcher.Spending
import MeteredFetch.Proofs.Fetcher.Stages
import MeteredFetch.Proofs.Fetcher.Tending
import MeteredFetch.Proofs.Fetcher.Urgency
import MeteredFetch.Proofs.Fetcher.Watch
import MeteredFetch.Proofs.Keys
