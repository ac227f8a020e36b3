import MarketFeed.Protocol.Wire
import MarketFeed.Protocol.Subscription
import MarketFeed.Client.MessageParser
import MarketFeed.Client.Reassembly
import MarketFeed.Client.RoundTrip
import MarketFeed.Client.SequenceTracking
import MarketFeed.Protocol.Checksum
import MarketFeed.Client.Resync
import MarketFeed.Client.ParserContract
import MarketFeed.Cache.SymbolCache
import MarketFeed.Cache.Seqlock
import MarketFeed.Cache.History
import MarketFeed.Cache.TopSymbols
import MarketFeed.Stats.LatencyTracker
import MarketFeed.Stats.Rounding
import MarketFeed.Stats.Percentiles
import MarketFeed.Stats.PercentileRank
import MarketFeed.Stats.RingBuffer
import MarketFeed.Client.FeedHandler
import MarketFeed.Client.FrameStream
import MarketFeed.Client.LatencyFeed
import MarketFeed.Client.Reconnect
import MarketFeed.Server.TickGenerator
import MarketFeed.Server.ClientManager
import MarketFeed.Server.SlowCount
import MarketFeed.Server.Broadcast
import MarketFeed.Server.ExchangeSimulator
import MarketFeed.Server.Delivery
import MarketFeed.System.EndToEnd
import MarketFeed.Common.MemoryPool
import MarketFeed.Common.FreeList
import MarketFeed.Common.PoolArena
import MarketFeed.Common.PoolRefinement
