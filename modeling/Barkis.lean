import Barkis.Types.Int
import Barkis.Types.Decimal
import Barkis.Lib.Rounding
import Barkis.Lib.Numeral
import Barkis.Lib.JsonString
import Barkis.Types.DecimalRounding
import Barkis.Types.DecString
import Barkis.Lib.SortedMerge
import Barkis.Lib.KVStore
import Barkis.Types.CoinSet
import Barkis.Types.Coin
import Barkis.Types.DecCoin
import Barkis.Store.MergeIterator
import Barkis.Store.CacheKV
import Barkis.Store.Gas
import Barkis.BaseApp.RunTx
import Barkis.Lib.Ledger
import Barkis.Lib.Check
import Barkis.Lib.Index
import Barkis.Bank.Keeper
import Barkis.Supply.Keeper
import Barkis.Staking.Types
import Barkis.Staking.Keeper
import Barkis.Staking.Books
import Barkis.Staking.Slash
import Barkis.Staking.EndBlock
import Barkis.Staking.Handler
import Barkis.Staking.Reachable
import Barkis.Gov.Keeper
import Barkis.Gov.Invariants
import Barkis.Slashing.Keeper
import Barkis.Asset.Keeper
import Barkis.Distribution.Allocation
import Barkis.Auth.Vesting
import Barkis.Mint.Keeper
import Barkis.Auth.Ante
import Barkis.Lib.EraseLoop
import Barkis.Staking.Mature
import Barkis.Gov.Query
import Barkis.Lib.Lex
import Barkis.Lib.FixedWidth
import Barkis.Store.Prefix
import Barkis.Staking.Commission
import Barkis.Staking.Keys
import Barkis.Types.CoinString
import Barkis.Types.Time
import Barkis.Types.TimeText
import Barkis.Lib.StableSort
import Barkis.Lib.Simulation
import Barkis.Staking.Queue
import Barkis.Staking.QueueStore
import Barkis.Store.GasKV
import Barkis.BaseApp.ABCI
import Barkis.Distribution.Hooks
import Barkis.Distribution.Reachable
