import BlobCache.Config.Load
import BlobCache.Store.Script
import BlobCache.Store.Surgery
import BlobCache.Host.Cache
import BlobCache.Proofs.Projection
import BlobCache.Proofs.Opening
import BlobCache.Proofs.Reopening
import BlobCache.Proofs.Rejection
import BlobCache.Proofs.Guarantee
import BlobCache.Proofs.Drift
import BlobCache.Proofs.WorkingSet
import BlobCache.Proofs.Replacement
import BlobCache.Proofs.Collection
import BlobCache.Proofs.RoundTrip
import BlobCache.Proofs.Overflow
import BlobCache.Proofs.Chronology
import BlobCache.Proofs.Layers
import BlobCache.Proofs.Inclusion
import BlobCache.Proofs.Lookup
