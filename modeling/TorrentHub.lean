import TorrentHub.Inventory.Reset
import TorrentHub.Delivery.Preload
import TorrentHub.Engine.HashBudget
import TorrentHub.Engine.TaskEvents
import TorrentHub.Engine.DownloadGate
import TorrentHub.Engine.UploadGate
import TorrentHub.Move.Linear
import TorrentHub.Resume.Binding
import TorrentHub.Resume.Canonical
import TorrentHub.Resume.Filter
import TorrentHub.Resume.SealProgress
import TorrentHub.Resume.Protocol
import TorrentHub.Repository.Disjoint
import TorrentHub.Repository.Verified
import TorrentHub.Engine.Durability
import TorrentHub.Usecase.Cancellation
import TorrentHub.Usecase.Reservations
import TorrentHub.Engine.Detachment
import TorrentHub.Usecase.ConsistentRead
import TorrentHub.Usecase.Leasing
import TorrentHub.Engine.StreamSafety
import TorrentHub.Engine.Windows
import TorrentHub.Engine.ReadAhead
import TorrentHub.Engine.Completion
import TorrentHub.Usecase.AliasRuns
import TorrentHub.Usecase.FailureReport
import TorrentHub.Usecase.OwnershipSafety
import TorrentHub.Usecase.MigrationCopy
import TorrentHub.Repository.CatalogGeometry
import TorrentHub.Repository.CatalogStore
import TorrentHub.Repository.Transactions
import TorrentHub.Move.SparseCopy
import TorrentHub.Move.Contained
import TorrentHub.Payload.FolderName
import TorrentHub.Logging.SinkQueue
import TorrentHub.Web.TorrentStore
import TorrentHub.Usecase.SyncWorker
import TorrentHub.Metafetch.Fetch
