import Deviant.Budget.Confluence
import Deviant.Budget.LiveVotes
import Deviant.Budget.PaymentHistory
import Deviant.Budget.Superblocks
import Deviant.Budget.Suppression
import Deviant.Budget.TotalPayout
import Deviant.Coins.AnchorStack
import Deviant.Coins.CacheStack
import Deviant.Index.IndexUndo
import Deviant.Masternode.BlockHashes
import Deviant.Masternode.PaymentsDB
import Deviant.Masternode.Rank
import Deviant.Masternode.SeenBroadcasts
import Deviant.Masternode.SpentCollateral
import Deviant.Mempool.Compare
import Deviant.Mempool.Prioritisation
import Deviant.Mining.BlockTemplate
import Deviant.Net.BlockDownload
import Deviant.Net.LimitedMap
import Deviant.Net.TimeData
import Deviant.Sapling.NoteMerge
import Deviant.Sapling.NotePosition
import Deviant.Scheduler.Client
import Deviant.Serialize.Undo
import Deviant.Spork.SporkManager
import Deviant.Validation.BlockBounds
import Deviant.Validation.CrashRecovery
import Deviant.Validation.ValueChecks
import Deviant.Wallet.KernelSearch
