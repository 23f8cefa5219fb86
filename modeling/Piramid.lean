import Piramid.Base.Prog
import Piramid.Base.Family
import Piramid.Base.Simulation
import Piramid.Base.Relational
import Piramid.Base.Invariant
import Piramid.Base.Extent
import Piramid.Storage.Replay
import Piramid.Base.SnapshotLog
import Piramid.Document
import Piramid.Index.Search
import Piramid.Collections.Sidecars
import Piramid.Collections.Serving
import Piramid.Collections.Journaled
import Piramid.Collections.Recovery
import Piramid.Collections.Compacting
import Piramid.Collections.Presence
import Piramid.Collections.Ledger
import Piramid.Collections.Atomicity
import Piramid.Collections.Search
import Piramid.Collections.Answers
import Piramid.Collections.Dimension
import Piramid.Collections.Hits
import Piramid.Collections.Quotas
import Piramid.Collections.OneDimension
import Piramid.Reference.Env
import Piramid.Collections.Manager
import Piramid.Server.Names
import Piramid.Server.WritePath
import Piramid.Index.Validated
import Piramid.Index.Beam
import Piramid.Index.Filtering
import Piramid.Index.Similarity
import Piramid.Server.Queries
import Piramid.Index.Partition
import Piramid.Index.Probing
import Piramid.Index.Adjacency
import Piramid.Index.Drawing
import Piramid.Collections.Following
import Piramid.Collections.Upkeep
import Piramid.Collections.MaxVectors
import Piramid.Collections.AllPairs
import Piramid.Cache.Recency
import Piramid.Runtime.Budget
import Piramid.Runtime.State
import Piramid.Collections.Separation
import Piramid.Search.Filter
import Piramid.Server.Metadata
import Piramid.Embeddings.Types
import Piramid.Embeddings.Retry
import Piramid.Services.Vector
import Piramid.Services.Embedding
import Piramid.Services.Collection
import Piramid.Services.Catalog
import Piramid.Services.Standing
import Piramid.Services.Steps
import Piramid.Services.Queries
import Piramid.Services.Requests
import Piramid.Services.Server
import Piramid.Services.Entry
import Piramid.Services.Bindings
import Piramid.Services.Acknowledged
import Piramid.Services.Searching
import Piramid.Quantization.Exact
import Piramid.Quantization.Layout
import Piramid.Quantization.Precision
import Piramid.Kernels
import Piramid.Base.Inertia
import Piramid.Collections.Lasting
import Piramid.Server.Readiness
import Piramid.Index.KMeans
import Piramid.Collections.Replaying
