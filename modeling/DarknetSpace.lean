import DarknetSpace.Core.Banned
import DarknetSpace.Core.Positions
import DarknetSpace.Core.Decodable
import DarknetSpace.Store.PowerCut
import DarknetSpace.Chain.AliasViews
import DarknetSpace.Sync.Progress
import DarknetSpace.Miner.PendingAlias
import DarknetSpace.Miner.Labels
import DarknetSpace.Chain.AliasReplay
import DarknetSpace.Miner.Shares
import DarknetSpace.Format.Reward
import DarknetSpace.Rpc.JsonRpc
import DarknetSpace.Rpc.BlockTemplate
import DarknetSpace.Crypto.TreeHash
import DarknetSpace.Format.ExtraPasses
import DarknetSpace.Format.ExtraEntries
import DarknetSpace.Core.PoolRefused
import DarknetSpace.Core.PoolRestart
import DarknetSpace.Core.BestPrefix
import DarknetSpace.Wallet.Stealth
import DarknetSpace.Wallet.Selection
import DarknetSpace.Wallet.Digits
import DarknetSpace.P2p.PeerBounds
import DarknetSpace.P2p.WhitePeers
import DarknetSpace.P2p.Maintainers
import DarknetSpace.P2p.Trust
import DarknetSpace.Crypto.LongHash
import DarknetSpace.Rpc.RandomOuts
import DarknetSpace.Wallet.StoreLoad
import DarknetSpace.Wallet.Pending
import DarknetSpace.Format.VarintWords
import DarknetSpace.Core.RingOffsets
import DarknetSpace.Core.Hashrate
import DarknetSpace.Core.DoubleSpend
import DarknetSpace.Core.Heaviest
import DarknetSpace.Net.Exchange
