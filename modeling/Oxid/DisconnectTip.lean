import Oxid.ConnectBlock
import Oxid.Mempool

/-!
`DisconnectTip`: the block is disconnected, its transactions are offered to the memory pool
one by one, and spends that no longer stand are taken off it. The pool admits a transaction
by `AcceptToMemoryPool`, here with the arguments this caller gives it. The relay policy
beyond the rules of the chain is a parameter.
-/
namespace OxidDisconnectTip
open OxidPrimitives OxidCoins OxidUtxoView OxidDisconnectBlock OxidZerocoin OxidChainParams
open OxidNode OxidCheckBlock OxidConnectBlock OxidMempool OxidMapKeys OrderedMaps

def MEMPOOL_HEIGHT : Int32 := 0x7FFFFFFF
def MAX_TX_SIGOPS_CURRENT : Nat := MAX_BLOCK_SIGOPS_CURRENT / 5

/-- What a node asks of a loose transaction beyond the rules of the chain. -/
structure RelayPolicy where
  requireStandard : Bool
  isStandardTx : CTransaction → Bool
  areInputsStandard : CTransaction → (Uint256 → CCoins) → Bool
  obfuscationBroadcast : Uint256 → Bool
  zerocoinMintFee : Int
  relayPriority : Bool
  minRelayFee : Nat → Int
  allowFree : CTransaction → (Uint256 → CCoins) → Bool
  standardScripts : CTransaction → (Uint256 → CCoins) → Bool
  mandatoryScripts : CTransaction → (Uint256 → CCoins) → Bool

structure TipCall where
  machinery : Machinery
  node : Node
  policy : RelayPolicy
  block : CBlock
  target : DisconnectTarget
  prev : CBlockIndex
  readUndo : Option CBlockUndo
  pcoinsTip : UtxoView
  zerocoinDB : CZerocoinDB
  txIndex : TxIndex
  flushed : Bool
  /-- The assertions of `check` about the coins behind the pool. -/
  coinsChecked : UtxoView → CTxMemPool → Bool
  prevNamed : target.prevHash ≠ 0
  prevKnown : node.mapBlockIndex target.prevHash = some prev
  oneAbove : prev.nHeight + 1 = target.nHeight.toInt

def poolCoins (view : UtxoView) (pool : CTxMemPool) (hash : Uint256) : CCoins :=
  match pool.mapTx.find? hash with
  | some entry => CCoins.fromTx entry.tx MEMPOOL_HEIGHT
  | none => view.coins hash

def accessCoins (view : UtxoView) (hash : Uint256) : Option CCoins :=
  if (view.coins hash).isPruned then none else some (view.coins hash)

def mintCount (tx : CTransaction) : Int :=
  tx.vout.countP fun out => CScript.isZerocoinMint out.scriptPubKey

section Accept
variable (call : TipCall) (view : UtxoView) (zerocoinDB : CZerocoinDB) (pool : CTxMemPool)

def lookupNode : Node :=
  { call.node with
    mempool := fun hash => (pool.mapTx.find? hash).map CTxMemPoolEntry.tx
    coinsTip := accessCoins view }

def serialAllowed (txin : CTxIn) : Bool :=
  !CScript.isZerocoinSpend txin.scriptSig ||
    match call.machinery.zerocoin.txInToZerocoinSpend txin with
    | none => false
    | some spend =>
      (isSerialInBlockchain call.machinery (lookupNode call view pool) call.txIndex zerocoinDB
        spend.coinSerialNumber).isNone && call.machinery.hasValidSerial spend

def spendAllowed (tx : CTransaction) : Bool :=
  (isTransactionInChain call.machinery (lookupNode call view pool) call.txIndex
    (call.machinery.txHash tx)).isNone && tx.vin.all (serialAllowed call view zerocoinDB pool)

def inputsAllowed (invalid : InvalidMaps) (tx : CTransaction) : Bool :=
  (poolCoins view pool (call.machinery.txHash tx)).isPruned &&
    tx.vin.all (fun txin => !(poolCoins view pool txin.prevout.hash).isPruned &&
      validOutPoint call.node.params invalid txin.prevout call.node.height) &&
    haveInputs (poolCoins view pool) tx

def valueIn (tx : CTransaction) : Int :=
  if tx.isZerocoinSpend then
    (tx.vin.map fun txin => ((call.machinery.zerocoin.txInToZerocoinSpend txin).map fun spend =>
      zerocoinDenominationToAmount spend.denomination).getD 0).sum
  else getValueIn (poolCoins view pool) tx

def sigOpsAllowed (tx : CTransaction) : Bool :=
  tx.isZerocoinSpend ||
    decide (call.machinery.legacySigOpCount tx +
      call.machinery.p2shSigOpCount tx (poolCoins view pool) ≤ MAX_TX_SIGOPS_CURRENT)

/-- The fee rules, without those for callers that limit free transactions or
    refuse high fees. -/
def feesAllowed (tx : CTransaction) : Bool :=
  let nFees := valueIn call view pool tx - tx.getValueOut.getD 0
  call.policy.obfuscationBroadcast (call.machinery.txHash tx) ||
    (if tx.isZerocoinMint then decide (call.policy.zerocoinMintFee * mintCount tx ≤ nFees)
    else tx.isZerocoinSpend || !call.policy.relayPriority ||
      decide (call.policy.minRelayFee (call.machinery.txSize tx) ≤ nFees) ||
      call.policy.allowFree tx (poolCoins view pool))

def inputValuesPass (tx : CTransaction) : Bool :=
  tx.isZerocoinSpend ||
    match call.node.mapBlockIndex view.getBestBlock with
    | none => false
    | some pindexPrev =>
      match checkInputValues call.node (poolCoins view pool) (pindexPrev.nHeight + 1) tx.vin 0 with
      | .error _ => false
      | .ok nValueIn => checkTxFee call.node tx nValueIn = .ok ()

def scriptsPass (tx : CTransaction) : Bool :=
  tx.isZerocoinSpend ||
    (call.policy.standardScripts tx (poolCoins view pool) &&
      call.policy.mandatoryScripts tx (poolCoins view pool))

def lockedElsewhere (tx : CTransaction) : Bool :=
  tx.vin.any fun txin =>
    !((call.node.mapLockedInputs txin.prevout).all (· == call.machinery.txHash tx))

def zerocoinActive : Bool := decide (call.node.params.nZerocoinStartHeight ≤ call.node.height)

def accepts (invalid : InvalidMaps) (tx : CTransaction) : Bool :=
  decide (checkTransaction call.machinery call.node zerocoinDB tx (zerocoinActive call) = .ok ()) &&
  !tx.isCoinBase && !tx.isCoinStake &&
  (!call.policy.requireStandard || call.policy.isStandardTx tx) &&
  !pool.mapTx.count (call.machinery.txHash tx) &&
  !lockedElsewhere call tx &&
  (tx.isZerocoinSpend || tx.vin.all fun txin => !pool.mapNextTx.count txin.prevout) &&
  (if tx.isZerocoinSpend then spendAllowed call view zerocoinDB pool tx
    else inputsAllowed call view pool invalid tx) &&
  (!call.policy.requireStandard || call.policy.areInputsStandard tx (poolCoins view pool)) &&
  sigOpsAllowed call view pool tx &&
  feesAllowed call view pool tx &&
  inputValuesPass call view pool tx &&
  scriptsPass call view pool tx

end Accept

section Resurrect
variable (call : TipCall) (invalid : InvalidMaps) (view : UtxoView) (zerocoinDB : CZerocoinDB)

def poolEntry (tx : CTransaction) : CTxMemPoolEntry :=
  ⟨tx, UInt64.ofNat (call.machinery.txSize tx)⟩

def resurrectTx (pool : CTxMemPool) (tx : CTransaction) : CTxMemPool :=
  if tx.isCoinBase || tx.isCoinStake || !accepts call view zerocoinDB pool invalid tx then
    (pool.remove call.machinery.txHash tx [] true).1
  else pool.addUnchecked (call.machinery.txHash tx) (poolEntry call tx)

def resurrect (vtx : List CTransaction) (pool : CTxMemPool) : CTxMemPool :=
  vtx.foldl (resurrectTx call invalid view zerocoinDB) pool

def coinbaseScan : CTxMemPool.CoinbaseScan where
  accessCoins := accessCoins view
  nMemPoolHeight := call.target.nHeight.toUInt32
  coinbaseMaturity := UInt32.ofNat call.node.params.nMaturity.toNat

end Resurrect

/-- `check` does nothing unless the pool is set to check itself. -/
def checked (call : TipCall) (view : UtxoView) (pool : CTxMemPool) : Bool :=
  !pool.fSanityCheck || (pool.check && call.coinsChecked view pool)

/-- The pool when `DisconnectTip` returns true. Nothing where it fails, or where an
    assertion ends the program. -/
def disconnectTip (call : TipCall) (invalid : InvalidMaps) (pool : CTxMemPool) :
    Option CTxMemPool :=
  if !checked call call.pcoinsTip pool then none
  else
    match disconnectBlock call.machinery.zerocoin call.machinery.txHash call.block call.target
        call.readUndo call.pcoinsTip call.zerocoinDB with
    | (_, some _) => none
    | (ended, none) =>
      if !ended.fClean || !call.flushed then none
      else
        match (resurrect call invalid ended.view ended.zerocoinDB call.block.vtx
            pool).removeCoinbaseSpends call.machinery.txHash (coinbaseScan call ended.view) with
        | none => none
        | some left => if checked call ended.view left then some left else none

end OxidDisconnectTip
