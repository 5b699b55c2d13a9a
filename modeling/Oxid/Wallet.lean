import Mathlib.Data.List.Sort
import Oxid.MapKeys
import Oxid.MerkleTree

/-!
The transactions a wallet keeps, and the index of what they spend. A call may fail part way
and keep what it wrote, so a call says how it ended.
-/
namespace OxidWallet
open OxidPrimitives OxidMapKeys OxidChainParams OxidNode OrderedMaps OrderedMap

structure CWalletTx where
  tx : CTransaction
  hashBlock : Uint256
  vMerkleBranch : List Uint256
  nIndex : Int32
  mapValue : List (String × String)
  vOrderForm : List (String × String)
  fTimeReceivedIsTxTime : UInt32
  nTimeReceived : UInt32
  nTimeSmart : UInt32
  fFromMe : Int8
  strFromAccount : String
  nOrderPos : Int64
deriving DecidableEq

def CWalletTx.ofTransaction (tx : CTransaction) : CWalletTx :=
  ⟨tx, 0, [], -1, [], [], 0, 0, 0, 0, "", -1⟩

def CWalletTx.init : CWalletTx := .ofTransaction ⟨1, [], [], 0⟩

structure CAccountingEntry where
  nOrderPos : Int64
  nTime : Int64
deriving DecidableEq

structure CWallet where
  mapWallet : OrderedMap Uint256 CWalletTx
  mapTxSpends : List (COutPoint × Uint256)
  nOrderPosNext : Int64
  fFileBacked : Bool

def CWallet.equalRange (wallet : CWallet) (outpoint : COutPoint) : List Uint256 :=
  (wallet.mapTxSpends.filter fun spend => spend.1 == outpoint).map Prod.snd

abbrev Copy := Uint256 × Uint256

def entryAt (mapWallet : OrderedMap Uint256 CWalletTx) (hash : Uint256) : CWalletTx :=
  (mapWallet.find? hash).getD .init

def findCopyFrom : List Uint256 → OrderedMap Uint256 CWalletTx → Int32 → Option Uint256 →
    OrderedMap Uint256 CWalletTx × Option Uint256
  | [], mapWallet, _, copyFrom => (mapWallet, copyFrom)
  | hash :: rest, mapWallet, nMinOrderPos, copyFrom =>
    let mapWallet := mapWallet.insert hash .init
    let n := (entryAt mapWallet hash).nOrderPos.toInt32
    if n < nMinOrderPos then findCopyFrom rest mapWallet n (some hash)
    else findCopyFrom rest mapWallet nMinOrderPos copyFrom

def copyMetaData (copyFrom copyTo : CWalletTx) : CWalletTx :=
  { copyTo with
    mapValue := copyFrom.mapValue
    vOrderForm := copyFrom.vOrderForm
    nTimeSmart := copyFrom.nTimeSmart
    fFromMe := copyFrom.fFromMe
    strFromAccount := copyFrom.strFromAccount }

def copyToRest (copyFrom : Option Uint256) :
    List Uint256 → OrderedMap Uint256 CWalletTx → Option (OrderedMap Uint256 CWalletTx × List Copy)
  | [], mapWallet => some (mapWallet, [])
  | hash :: rest, mapWallet =>
    let mapWallet := mapWallet.insert hash .init
    if copyFrom = some hash then copyToRest copyFrom rest mapWallet
    else
      match copyFrom with
      | none => none
      | some source =>
        let synced := copyMetaData (entryAt mapWallet source) (entryAt mapWallet hash)
        (copyToRest copyFrom rest (mapWallet.set hash synced)).map fun result =>
          (result.1, (source, hash) :: result.2)

def syncMetaData (range : List Uint256) (mapWallet : OrderedMap Uint256 CWalletTx) :
    Option (OrderedMap Uint256 CWalletTx × List Copy) :=
  let (mapWallet, copyFrom) := findCopyFrom range mapWallet Int32.maxValue none
  copyToRest copyFrom range mapWallet

def addToSpends (outpoint : COutPoint) (wtxid : Uint256) (wallet : CWallet) :
    Option (CWallet × List Copy) :=
  let wallet := { wallet with mapTxSpends := wallet.mapTxSpends ++ [(outpoint, wtxid)] }
  (syncMetaData (wallet.equalRange outpoint) wallet.mapWallet).map fun (mapWallet, copies) =>
    ({ wallet with mapWallet := mapWallet }, copies)

def addInputsToSpends (wtxid : Uint256) : List CTxIn → CWallet → Option (CWallet × List Copy)
  | [], wallet => some (wallet, [])
  | txin :: rest, wallet =>
    match addToSpends txin.prevout wtxid wallet with
    | none => none
    | some (wallet, copies) =>
      (addInputsToSpends wtxid rest wallet).map fun result => (result.1, copies ++ result.2)

/-- `AddToSpends` of a transaction, `none` where it does not come back. -/
def addTxToSpends (wtxid : Uint256) (wallet : CWallet) : Option (CWallet × List Copy) :=
  match wallet.mapWallet.find? wtxid with
  | none => none
  | some thisTx =>
    if thisTx.tx.isCoinBase then some (wallet, [])
    else addInputsToSpends wtxid thisTx.tx.vin wallet

inductive Outcome where
  | returned (ret : Bool) (wallet : CWallet) (copies : List Copy)
  | threw (wallet : CWallet)
  | crashed

def Outcome.afterSpends (ret : Bool) : Option (CWallet × List Copy) → Outcome
  | none => .crashed
  | some (wallet, copies) => .returned ret wallet copies

structure WalletCall where
  /-- The adjusted time. -/
  now : Int64
  /-- The time of a block in the index. -/
  blockTime : Uint256 → Option Int
  /-- The accounting entries in the database, none if reading them throws. -/
  acentries : Option (List CAccountingEntry)
  /-- Whether the transaction was written to disk. -/
  written : Bool

/-- `OrderedTxItems`: transactions by hash and accounting entries, each with its time. -/
def orderedTxItems (mapWallet : OrderedMap Uint256 CWalletTx) (acentries : List CAccountingEntry) :
    List (Option Uint256 × Int) :=
  let txs := mapWallet.entries.map fun (hash, wtx) =>
    let nSmartTime := if wtx.nTimeSmart == 0 then wtx.nTimeReceived else wtx.nTimeSmart
    (wtx.nOrderPos, some hash, (nSmartTime.toNat : Int))
  let entries := acentries.map fun entry => (entry.nOrderPos, none, entry.nTime.toInt)
  let earlier (item next : Int64 × Option Uint256 × Int) : Bool := item.1 ≤ next.1
  ((txs ++ entries).insertionSort fun item next => earlier item next = true).map Prod.snd

def findLatestEntry (hash : Uint256) (latestTolerated : Int) :
    List (Option Uint256 × Int) → Option Int
  | [] => none
  | (owner, nSmartTime) :: rest =>
    if owner = some hash then findLatestEntry hash latestTolerated rest
    else if nSmartTime ≤ latestTolerated then some nSmartTime
    else findLatestEntry hash latestTolerated rest

def smartTime (hash : Uint256) (nTimeReceived : UInt32) (blocktime : Int)
    (mapWallet : OrderedMap Uint256 CWalletTx) (acentries : List CAccountingEntry) : UInt32 :=
  let latestNow : Int := nTimeReceived.toNat
  let txOrdered := orderedTxItems mapWallet acentries
  let (latestNow, latestEntry) :=
    match findLatestEntry hash (latestNow + 300) txOrdered.reverse with
    | none => (latestNow, 0)
    | some nSmartTime => (max latestNow nSmartTime, nSmartTime)
  UInt32.ofInt (max latestEntry (min blocktime latestNow))

/-- The merge of a transaction that is there already, and whether it was updated. -/
def mergeWalletTx (wtxIn wtx : CWalletTx) : CWalletTx × Bool :=
  let inBlock := wtxIn.hashBlock != 0 && wtxIn.hashBlock != wtx.hashBlock
  let wtx := if inBlock then { wtx with hashBlock := wtxIn.hashBlock } else wtx
  let branched := wtxIn.nIndex != -1 &&
    (wtxIn.vMerkleBranch != wtx.vMerkleBranch || wtxIn.nIndex != wtx.nIndex)
  let wtx :=
    if branched then { wtx with vMerkleBranch := wtxIn.vMerkleBranch, nIndex := wtxIn.nIndex }
    else wtx
  let fromMe := wtxIn.fFromMe != 0 && wtxIn.fFromMe != wtx.fFromMe
  let wtx := if fromMe then { wtx with fFromMe := wtxIn.fFromMe } else wtx
  (wtx, inBlock || branched || fromMe)

def receivedTx (call : WalletCall) (wtxIn : CWalletTx) (nOrderPos : Int64) : CWalletTx :=
  let nTimeReceived := call.now.toUInt64.toUInt32
  { wtxIn with
    nTimeReceived := nTimeReceived, nOrderPos := nOrderPos, nTimeSmart := nTimeReceived }

section Calls

variable (txHash : CTransaction → Uint256)

/-- The part of `AddToWallet` for a transaction that is inserted. -/
def insertLive (call : WalletCall) (wtxIn : CWalletTx) (wallet : CWallet) : Outcome :=
  let hash := txHash wtxIn.tx
  let wtx := receivedTx call wtxIn wallet.nOrderPosNext
  let wallet := { wallet with
    mapWallet := wallet.mapWallet.set hash wtx, nOrderPosNext := wallet.nOrderPosNext + 1 }
  let found := if wtxIn.hashBlock = 0 then none else call.blockTime wtxIn.hashBlock
  match found, call.acentries with
  | some _, none => .threw wallet
  | found, acentries =>
    let nTimeSmart :=
      match found with
      | none => wtx.nTimeSmart
      | some blocktime =>
        smartTime hash wtx.nTimeReceived blocktime wallet.mapWallet (acentries.getD [])
    let wallet := { wallet with
      mapWallet := wallet.mapWallet.set hash { wtx with nTimeSmart := nTimeSmart } }
    .afterSpends call.written (addTxToSpends hash wallet)

def addToWallet (call : WalletCall) (wtxIn : CWalletTx) (fFromLoadWallet : Bool)
    (wallet : CWallet) : Outcome :=
  let hash := txHash wtxIn.tx
  if fFromLoadWallet then
    .afterSpends true
      (addTxToSpends hash { wallet with mapWallet := wallet.mapWallet.set hash wtxIn })
  else
    match wallet.mapWallet.find? hash with
    | none => insertLive txHash call wtxIn wallet
    | some wtx =>
      let (wtx, fUpdated) := mergeWalletTx wtxIn wtx
      .returned (!fUpdated || call.written)
        { wallet with mapWallet := wallet.mapWallet.set hash wtx } []

variable (params : ChainParams) (isMine : CScript → UInt8)

def ISMINE_ALL : UInt8 := 5

def getDebitIn (mapWallet : OrderedMap Uint256 CWalletTx) (txin : CTxIn) : Int :=
  match mapWallet.find? txin.prevout.hash with
  | none => 0
  | some prev =>
    match prev.tx.vout[txin.prevout.n.toNat]? with
    | none => 0
    | some txout => if isMine txout.scriptPubKey &&& ISMINE_ALL != 0 then txout.nValue else 0

def getDebit (mapWallet : OrderedMap Uint256 CWalletTx) (nDebit : Int) : List CTxIn → Option Int
  | [] => some nDebit
  | txin :: rest =>
    let nDebit := nDebit + getDebitIn isMine mapWallet txin
    if moneyRange params nDebit then getDebit mapWallet nDebit rest else none

/-- Whether `AddToWalletIfInvolvingMe` goes on to add the transaction. -/
def involvesMe (tx : CTransaction) (fUpdate : Bool) (wallet : CWallet) : Option Bool :=
  let fExisted := wallet.mapWallet.count (txHash tx)
  if fExisted && !fUpdate then some false
  else if fExisted || tx.vout.any fun txout => isMine txout.scriptPubKey != 0 then some true
  else (getDebit params isMine wallet.mapWallet 0 tx.vin).map fun nDebit => decide (0 < nDebit)

variable (blockHash : CBlock → Uint256) (hashPair : Uint256 → Uint256 → Uint256)

def merkleBranch (vMerkleTree : List Uint256) (j nSize nIndex : Nat) : List Uint256 :=
  if 1 < nSize then
    vMerkleTree.getD (j + min (nIndex ^^^ 1) (nSize - 1)) 0 ::
      merkleBranch vMerkleTree (j + nSize) ((nSize + 1) / 2) (nIndex >>> 1)
  else []
termination_by nSize

def getMerkleBranch (block : CBlock) (nIndex : Nat) : List Uint256 :=
  merkleBranch
    (OxidMerkleTree.hashLevels hashPair 0 block.vtx.length (block.vtx.map txHash) false).1
    0 block.vtx.length nIndex

def setMerkleBranch (block : CBlock) (wtx : CWalletTx) : CWalletTx :=
  let nIndex := block.vtx.findIdx fun tx => txHash tx == txHash wtx.tx
  if nIndex = block.vtx.length then
    { wtx with hashBlock := blockHash block, vMerkleBranch := [], nIndex := -1 }
  else
    { wtx with
      hashBlock := blockHash block
      vMerkleBranch := getMerkleBranch txHash hashPair block nIndex
      nIndex := Int32.ofNat nIndex }

def walletTxOf (tx : CTransaction) (pblock : Option CBlock) : CWalletTx :=
  match pblock with
  | none => .ofTransaction tx
  | some block => setMerkleBranch txHash blockHash hashPair block (.ofTransaction tx)

def addToWalletIfInvolvingMe (call : WalletCall) (tx : CTransaction) (pblock : Option CBlock)
    (fUpdate : Bool) (wallet : CWallet) : Outcome :=
  match involvesMe txHash params isMine tx fUpdate wallet with
  | none => .threw wallet
  | some false => .returned false wallet []
  | some true =>
    addToWallet txHash call (walletTxOf txHash blockHash hashPair tx pblock) false wallet

end Calls

def eraseFromWallet (hash : Uint256) (wallet : CWallet) : CWallet :=
  if wallet.fFileBacked then { wallet with mapWallet := wallet.mapWallet.erase hash } else wallet

end OxidWallet
