import Wackamole.Network
import Wackamole.Coverage
import Wackamole.Retention
import Wackamole.Reconnect
import Wackamole.GatherOutcome
import Wackamole.FailedReceive
import Wackamole.CleanExit
import Wackamole.Retry
import Wackamole.BalancePlan
import Wackamole.BalanceRound
import Wackamole.Balancing
import Wackamole.FailedMulticast
import Wackamole.BalanceOutcome
import Wackamole.Hooks
import Wackamole.Library.LevelRounds
import Wackamole.Convergence
import Wackamole.Library.HostWords
import Wackamole.ServiceLock
import Wackamole.StateCodec
import Wackamole.MixedOrder
import Wackamole.Spoofing
import Wackamole.Accounting
import Wackamole.Cascade
import Wackamole.BalanceTimer
import Wackamole.Unclaimed
import Wackamole.RoundMoves
import Wackamole.GivingUp
import Wackamole.Library.SortedCells
import Wackamole.SharedArpCache
import Wackamole.Library.ByteCursor
import Wackamole.TableReply
import Wackamole.ControlSession
import Wackamole.Counters
import Wackamole.Overlap
import Wackamole.Library.Batches
import Wackamole.Announcing
import Wackamole.Delivery
import Wackamole.SingleAddress
import Wackamole.Shortfall
import Wackamole.GroupedAddresses
import Wackamole.Library.Sentinels
import Wackamole.NotifierRestart
import Wackamole.Cancelling
import Wackamole.Traversals
import Wackamole.Library.MaskedCounting
import Wackamole.Preferring
import Wackamole.Library.OnesComplement
import Wackamole.Ping
import Wackamole.Library.Decimal
import Wackamole.AliasLabels
import Wackamole.TakingDown
import Wackamole.Tokens
import Wackamole.Grammar
import Wackamole.TableWrites
import Wackamole.MalformedAddresses
import Wackamole.ReplyReads
import Wackamole.ArpRefresh
import Wackamole.Library.HeapBlocks
import Wackamole.ArpSampling
import Wackamole.Ledger
import Wackamole.Fleet
import Wackamole.FleetRuns
import Wackamole.FleetTables
import Wackamole.Library.BlockExchange
import Wackamole.Getopt
import Wackamole.GetoptRuns
import Wackamole.Wackatrl
import Wackamole.Conversation
import Wackamole.ArpSharing
