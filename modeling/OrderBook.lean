import OrderBook.AddConserves
import OrderBook.BookManager
import OrderBook.CancelConserves
import OrderBook.EventReplica
import OrderBook.Exchange
import OrderBook.ExpectedSnapshots
import OrderBook.FillRatio
import OrderBook.GreedyDrain
import OrderBook.GuessPriority
import OrderBook.L2Book
import OrderBook.LedgersAgree
import OrderBook.MatchingCalls
import OrderBook.MirrorBook
import OrderBook.ModifyMessage
import OrderBook.NoOverflow
import OrderBook.SharedCalls
import OrderBook.SharedRuns
import OrderBook.SnapshotEffect
import OrderBook.SnapshotLeads
import OrderBook.SnapshotTrace
import OrderBook.SnapshotUncrossed
import OrderBook.StreamOrder
import OrderBook.StreamOutcome
import OrderBook.TimePriority
import OrderBook.TradeAccounts
import OrderBook.TradeEffect
import OrderBook.TradeFragments
import OrderBook.TradeLeads
import OrderBook.UniqueIds
import OrderBook.FollowedExchange
