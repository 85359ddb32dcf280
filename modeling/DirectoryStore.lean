import DirectoryStore.Bytes
import DirectoryStore.Error
import DirectoryStore.Storage
import DirectoryStore.Injection
import DirectoryStore.Settings
import DirectoryStore.Paging.FreeSpace
import DirectoryStore.Log.Writer
import DirectoryStore.Query.Search
import DirectoryStore.Proofs.Query.FailingStores
import DirectoryStore.Proofs.Query.Changing
import DirectoryStore.Proofs.Query.Substrings
import DirectoryStore.Proofs.Log.FailedOpening
import DirectoryStore.Proofs.Log.Validating
import DirectoryStore.Proofs.Log.Continuing
import DirectoryStore.Proofs.Log.Sessions
import DirectoryStore.Proofs.Paging.Sequences
import DirectoryStore.Proofs.Log.Growing
import DirectoryStore.Proofs.Log.Attempts
import DirectoryStore.Proofs.Log.Folders
import DirectoryStore.Proofs.Log.Homes
import DirectoryStore.Proofs.Log.Readers
import DirectoryStore.Proofs.Log.Beside
import DirectoryStore.Proofs.Paging.Slots
import DirectoryStore.Proofs.Paging.Shelves
import DirectoryStore.Proofs.Paging.FirstFit
import DirectoryStore.Proofs.Log.Reopening
import DirectoryStore.Proofs.Log.Tearing
import DirectoryStore.Proofs.Log.Accepting
import DirectoryStore.Proofs.Log.Checkpoints
import DirectoryStore.Proofs.Paging.Lending
import DirectoryStore.Proofs.Log.Anchors
import DirectoryStore.Proofs.Log.Damage
import DirectoryStore.Proofs.Log.Stopping
import DirectoryStore.Proofs.Log.Settled
import DirectoryStore.Proofs.Paging.Returning
import DirectoryStore.Proofs.Paging.Bodies
import DirectoryStore.Proofs.Query.Estimating
import DirectoryStore.Proofs.Query.ScopeOrder
import DirectoryStore.Proofs.Paging.Holders
import DirectoryStore.Proofs.Paging.Limits
import DirectoryStore.Proofs.Log.SharedRecord
import DirectoryStore.Proofs.Log.Listing
import DirectoryStore.Proofs.Query.Checking
import DirectoryStore.Proofs.Log.Frames
import DirectoryStore.Proofs.Log.Filling
import DirectoryStore.Proofs.Seeking
