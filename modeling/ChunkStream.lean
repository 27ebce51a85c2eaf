import ChunkStream.Bytes.Hex
import ChunkStream.Main
import ChunkStream.Program
import ChunkStream.Runs
import ChunkStream.Store.History
import ChunkStream.Streaming.Session
import ChunkStream.Streaming.History
import ChunkStream.Terrain.Scripted
import ChunkStream.Work.History
import ChunkStream.Proofs.Box.Enumeration
import ChunkStream.Proofs.Box.Growth
import ChunkStream.Proofs.Buffer.Writing
import ChunkStream.Proofs.Keys
import ChunkStream.Proofs.Streaming.Stock
import ChunkStream.Proofs.Work.Reviews
import ChunkStream.Proofs.Work.Turnover
import ChunkStream.Proofs.Work.Nearest
import ChunkStream.Proofs.Work.Accounts
import ChunkStream.Proofs.Work.Tasks
import ChunkStream.Proofs.Work.Arrival
import ChunkStream.Proofs.Work.Closing
import ChunkStream.Proofs.Streaming.Advance
import ChunkStream.Proofs.Streaming.Sweep
import ChunkStream.Proofs.Streaming.Acts
import ChunkStream.Proofs.Streaming.Claims
import ChunkStream.Proofs.Streaming.Announcements
import ChunkStream.Proofs.Streaming.ReadyEvents
import ChunkStream.Proofs.Streaming.Regions
import ChunkStream.Proofs.Streaming.Following
import ChunkStream.Proofs.Streaming.Flags
import ChunkStream.Proofs.Streaming.Reports
import ChunkStream.Proofs.Streaming.Quiescence
import ChunkStream.Proofs.Streaming.Retention
import ChunkStream.Proofs.Streaming.Supply
import ChunkStream.Proofs.Streaming.Finishing
import ChunkStream.Proofs.Bytes.Lz4
import ChunkStream.Proofs.Store.Payload
import ChunkStream.Proofs.Store.Artifact
import ChunkStream.Proofs.Store.Image
import ChunkStream.Proofs.Store.Ledger
import ChunkStream.Proofs.Store.Reload
import ChunkStream.Proofs.Streaming.Copies
import ChunkStream.Proofs.Streaming.Flushing
import ChunkStream.Proofs.Streaming.Custody
import ChunkStream.Proofs.Streaming.Teardown
import ChunkStream.Proofs.Streaming.Ranking
import ChunkStream.Proofs.Streaming.Starvation
import ChunkStream.Proofs.Streaming.Provenance
import ChunkStream.Proofs.Terrain.Finishing
import ChunkStream.Proofs.Terrain.Layers
import ChunkStream.Proofs.Terrain.Seams
import ChunkStream.Proofs.Terrain.Shore
import ChunkStream.Proofs.Terrain.Loops
import ChunkStream.Proofs.Store.Occupancy
import ChunkStream.Proofs.Store.Reading
import ChunkStream.Proofs.Streaming.Filing
import ChunkStream.Proofs.Streaming.Evictable
import ChunkStream.Proofs.Streaming.Tracking
import ChunkStream.Proofs.Streaming.Lifetime
import ChunkStream.Proofs.Streaming.Centers
import ChunkStream.Proofs.Streaming.Callbacks
import ChunkStream.Proofs.Streaming.Failures
import ChunkStream.Proofs.Streaming.Orders
import ChunkStream.Proofs.Streaming.Sharing
import ChunkStream.Proofs.Streaming.Reordering
import ChunkStream.Proofs.Streaming.Rounds
import ChunkStream.Proofs.Streaming.AnyOrder
