import Dobbscoin.Primitives.MoneyText
import Dobbscoin.Pow.EarlierRules
import Dobbscoin.Pow.LwmaLimbs
import Dobbscoin.Pow.LwmaResponse
import Dobbscoin.Pow.ScryptNway
import Dobbscoin.AuxPow.FullTemplate
import Dobbscoin.Coins.CacheRefinement
import Dobbscoin.Script.CombineRuns
import Dobbscoin.Script.MachineNumbers
import Dobbscoin.Script.SigHashRuns
import Dobbscoin.Script.SoftFork
import Dobbscoin.Storage.BufferedFile
import Dobbscoin.Storage.UndoFormat
import Dobbscoin.Validation.AddrIndexRuns
import Dobbscoin.Validation.ChainWork
import Dobbscoin.Validation.CheckQueue
import Dobbscoin.Validation.Competitors
import Dobbscoin.Validation.InputStandard
import Dobbscoin.Validation.LockTime
import Dobbscoin.Validation.RedeemChecks
import Dobbscoin.Validation.TxIndexRuns
import Dobbscoin.Wallet.AccountMoves
import Dobbscoin.Wallet.AddressGroupings
import Dobbscoin.Wallet.BdbStrict
import Dobbscoin.Wallet.Dump
import Dobbscoin.Wallet.ListSinceBlock
import Dobbscoin.Wallet.Passphrase
import Dobbscoin.Wallet.Reorder
import Dobbscoin.Wallet.Rescan
import Dobbscoin.Wallet.Rewrite
import Dobbscoin.Wallet.SendConserves
import Dobbscoin.Net.AddrReload
import Dobbscoin.Net.BlockDownload
import Dobbscoin.Net.Framing
import Dobbscoin.Net.LimitedMap
import Dobbscoin.Net.LocatorFork
import Dobbscoin.Net.MerkleBlock
import Dobbscoin.Net.OrphanIndex
import Dobbscoin.Net.Stratum
import Dobbscoin.Net.SubNet
