import VideoStorage.Library.Aead
import VideoStorage.Library.Bytes
import VideoStorage.Library.DirectoryTree
import VideoStorage.Library.Semaphore
import VideoStorage.Library.FilterGraph
import VideoStorage.Library.Intervals
import VideoStorage.Library.KeySort
import VideoStorage.Library.Mixing
import VideoStorage.Library.Serde
import VideoStorage.Library.TransitionSystem
import VideoStorage.Library.Triples
import VideoStorage.Xorf.XxHash3
import VideoStorage.Xorf.BinaryFuse16
import VideoStorage.Xorf.Construction
import VideoStorage.Xorf.Peeling
import VideoStorage.Xorf.Placement
import VideoStorage.Xorf.Crowding
import VideoStorage.Xorf.Attempts
import VideoStorage.Xorf.Release
import VideoStorage.Claim.Header
import VideoStorage.Claim.PayloadV1
import VideoStorage.Claim.PayloadV2
import VideoStorage.Claim.Manager
import VideoStorage.Claim.ClaimKeys
import VideoStorage.Claim.Honoured
import VideoStorage.Claim.AssetKey
import VideoStorage.Claim.VideoFilename
import VideoStorage.Claim.BucketStore
import VideoStorage.Claim.OneBucket
import VideoStorage.Claim.Bandwidth
import VideoStorage.Claim.Connections
import VideoStorage.Claim.ConnectionLimit
import VideoStorage.Claim.Cleanup
import VideoStorage.Claim.Consumers
import VideoStorage.Claim.Patience
import VideoStorage.Media.StreamSpecifier
import VideoStorage.Media.StreamMaps
import VideoStorage.Media.Context
import VideoStorage.Media.Binding
import VideoStorage.Media.MuxQueue
import VideoStorage.Jobs.Convert
import VideoStorage.Jobs.Operators
import VideoStorage.Jobs.Permits
import VideoStorage.Jobs.Raw
import VideoStorage.Jobs.Manager
import VideoStorage.Jobs.PendingFile
import VideoStorage.Jobs.StreamMap
import VideoStorage.Jobs.Wiring
import VideoStorage.Jobs.Handler
import VideoStorage.Jobs.Books
import VideoStorage.Jobs.Chains
import VideoStorage.Jobs.NoLoss
import VideoStorage.Jobs.Restart
import VideoStorage.Jobs.CrashSafety
import VideoStorage.Jobs.Conversion
import VideoStorage.Jobs.Leftovers
import VideoStorage.Jobs.Wrapping
import VideoStorage.Jobs.Migration
import VideoStorage.Jobs.UploadDeletion
import VideoStorage.Jobs.Encoding
import VideoStorage.Api.VideoKey
import VideoStorage.Api.Authorisation
import VideoStorage.Api.Naming
import VideoStorage.Api.ClaimAuth
import VideoStorage.Api.CreateClaim
import VideoStorage.Api.Upload
import VideoStorage.Api.Variants
import VideoStorage.Api.Gateway
import VideoStorage.Api.Playback
import VideoStorage.Api.Publishing
import VideoStorage.Api.Streaming
import VideoStorage.Media.MuxQueue
