import Oxid.CacheStackRuns
import Oxid.PaymentVotes
import Oxid.MempoolCheck
import Oxid.Resurrection
import Oxid.ForgedMessages
import Oxid.BlockTemplate
import Oxid.ActivateBestChain
import Oxid.InterpreterSafety
import Oxid.ScriptFlags
import Oxid.RefusedConnect
import Oxid.NetMessage
import Oxid.SpendIndex
import Oxid.OrphanVotes
import Oxid.AddrManReload
import Oxid.BlockDownload
import Oxid.LoadBlockIndex
import Oxid.EraseCheckpoints
import Oxid.Kernel
import Oxid.Collateral
import Oxid.MintCounts
import Oxid.WitnessCoins
import Oxid.CleanLocks
import Oxid.FinalizedBudget
import Oxid.ProposalCycles
import Oxid.RandomMasternode
import Oxid.VoteRuns
import Oxid.SeenBroadcasts
import Oxid.BudgetOrder
import Oxid.PaymentQueue
import Oxid.Retargeting
import Oxid.ModifierSelection
import Oxid.ActiveChain
import Oxid.MedianTime
import Oxid.BlockFiles
import Oxid.SignedTexts
import Oxid.CheckedTransaction
import Oxid.VarInt
import Oxid.UndoSerialize
import Oxid.ChainWork
import Oxid.SelectionExcess
import Oxid.MultiSig
import Oxid.DerSignatures
import Oxid.MerkleRoundTrip
import Oxid.BloomFilter
import Oxid.TimeData
import Oxid.FinalSigning
import Oxid.ChangeCounts
import Oxid.MoneyStrings
import Oxid.PolicyEstimator
import Oxid.LimitedMap
import Oxid.OutputCounts
