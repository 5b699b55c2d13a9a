import Oxid.Library.Serialize
import Oxid.MasternodePayments

/-!
What the two cache files keep. Each class has one field list, used to write and to
read, in the source's order. Reading starts from a default constructed object, so
a member off the list comes back as that object has it.
-/
namespace OxidMasternodeStore
open OxidPrimitives OxidMasternode OxidMasternodeMan OxidMasternodePayments OrderedMaps Serialize

def readWrite {Content Obj : Type} (codec : Codec Content) (get : Obj → Content)
    (set : Obj → Content → Obj) : Member Obj :=
  ⟨Content, codec, get, set⟩

def unsignedInt : Codec UInt32 := (number 4).via UInt32.toNat UInt32.ofNat

def signedInt : Codec Int32 :=
  unsignedInt.via Int32.toUInt32 UInt32.toInt32

def int64 : Codec Int64 :=
  (number 8).via (fun value => value.toUInt64.toNat) fun read => (UInt64.ofNat read).toInt64

def bool : Codec Bool := (number 1).via Bool.toNat fun read => read != 0

def byte : Codec UInt8 := (number 1).via UInt8.toNat UInt8.ofNat

def byteVector : Codec (List UInt8) := byte.list

def uint256 : Codec Uint256 := (number 32).via BitVec.toNat (BitVec.ofNat 256)

/-- Raw bytes with the first one most significant: the byte order of addresses and,
    after `htons`, of ports. -/
def networkOrder (width : Nat) : Codec Nat where
  write n := (littleEndian width n).reverse
  read stream :=
    if stream.length < width then none
    else
      (readLittleEndian width (stream.take width).reverse).map
        fun (n, _) => (n, stream.drop width)
  Fits _ := True
  kept n := n % 256 ^ width
  reads_back n rest _ := by
    have length : ∀ width n, (littleEndian width n).length = width := by
      intro width
      induction width with
      | zero => exact fun _ => rfl
      | succ width ih =>
        intro n
        simp only [littleEndian, List.length_cons, ih]
    have back := readLittleEndian_littleEndian width n []
    simp only [List.append_nil] at back
    have bytes : ((littleEndian width n).reverse).length = width := by
      rw [List.length_reverse, length]
    rw [if_neg (by rw [List.length_append, bytes]; omega), List.take_left' bytes,
      List.drop_left' bytes, List.reverse_reverse, back]
    rfl
  refuses _ _ unfit := absurd trivial unfit

theorem getLen_le (bytes : List UInt8) : getLen bytes ≤ 65 := by
  unfold getLen
  split
  · omega
  · split
    · omega
    · split <;> omega

/-- The key whose array starts with the bytes read. A header that announces more of
    them than were read is refused: the source would go on into bytes that nobody
    wrote. -/
def keyFromRead (bytes : List UInt8) : Option CPubKey :=
  if sized : (bytes.take (getLen bytes)).length = getLen (bytes.take (getLen bytes)) then
    some ⟨bytes.take (getLen bytes), sized⟩
  else none

def readKey (stream : Bytes) : Option (CPubKey × Bytes) := do
  let (len, stream) ← readCompactSize stream
  let (bytes, rest) ← readMany byte len stream
  if len ≤ 65 then (keyFromRead bytes).map fun key => (key, rest)
  else some (.invalid, rest)

theorem byte_lossless : byte.Lossless := by
  intro value
  have bound := value.toNat_lt
  simp only [byte, Codec.via, number]
  rw [Nat.mod_eq_of_lt (by omega)]
  exact UInt8.ofNat_toNat

theorem keyFromRead_bytes (key : CPubKey) : keyFromRead key.bytes = some key := by
  have whole : key.bytes.take (getLen key.bytes) = key.bytes := by
    rw [← key.sized]
    exact List.take_length
  unfold keyFromRead
  simp only [whole]
  rw [dif_pos key.sized]

def pubKey : Codec CPubKey where
  write key := byteVector.write key.bytes
  read := readKey
  Fits _ := True
  kept key := key
  reads_back key rest _ := by
    have short : key.bytes.length ≤ 65 := key.sized ▸ getLen_le key.bytes
    have fits : key.bytes.length ≤ maxSize := by
      have limit : maxSize = 0x02000000 := rfl
      omega
    have bytes := readMany_written byte key.bytes rest fun _ _ => trivial
    have same : byte.kept = id := funext byte_lossless
    rw [same, List.map_id] at bytes
    simp only [readKey, byteVector, Codec.list, List.append_assoc, readCompactSize_write,
      if_pos fits]
    simp [bytes, short, keyFromRead_bytes]
  refuses _ _ unfit := absurd trivial unfit

def outPoint : Codec COutPoint := object COutPoint.null [
  readWrite uint256 (·.hash) fun out hash => { out with hash },
  readWrite unsignedInt (·.n) fun out n => { out with n }]

def txIn : Codec CTxIn := object CTxIn.fresh [
  readWrite outPoint (·.prevout) fun vin prevout => { vin with prevout },
  readWrite byteVector (·.scriptSig) fun vin scriptSig => { vin with scriptSig },
  readWrite unsignedInt (·.nSequence) fun vin nSequence => { vin with nSequence }]

def netAddr : Codec CNetAddr :=
  (networkOrder 16).via (fun addr => addr.ip.toNat) fun read => ⟨BitVec.ofNat 128 read⟩

def service : Codec CService := object ⟨⟨0⟩, 0⟩ [
  readWrite netAddr (·.toCNetAddr) fun addr ip => { addr with toCNetAddr := ip },
  readWrite ((networkOrder 2).via UInt16.toNat UInt16.ofNat) (·.port)
    fun addr port => { addr with port }]

def ping : Codec CMasternodePing := object .fresh [
  readWrite txIn (·.vin) fun mnp vin => { mnp with vin },
  readWrite uint256 (·.blockHash) fun mnp blockHash => { mnp with blockHash },
  readWrite int64 (·.sigTime) fun mnp sigTime => { mnp with sigTime },
  readWrite byteVector (·.vchSig) fun mnp vchSig => { mnp with vchSig }]

/-- `CMasternode::SerializationOp`. The time a default constructed entry is signed at
    is read over. -/
def masternode : Codec CMasternode := object (.fresh 0) [
  readWrite txIn (·.vin) fun mn vin => { mn with vin },
  readWrite service (·.addr) fun mn addr => { mn with addr },
  readWrite pubKey (·.pubKeyCollateralAddress) fun mn key =>
    { mn with pubKeyCollateralAddress := key },
  readWrite pubKey (·.pubKeyMasternode) fun mn key => { mn with pubKeyMasternode := key },
  readWrite byteVector (·.sig) fun mn sig => { mn with sig },
  readWrite int64 (·.sigTime) fun mn sigTime => { mn with sigTime },
  readWrite signedInt (·.protocolVersion) fun mn version => { mn with protocolVersion := version },
  readWrite signedInt (·.activeState) fun mn activeState => { mn with activeState },
  readWrite ping (·.lastPing) fun mn lastPing => { mn with lastPing },
  readWrite signedInt (·.cacheInputAge) fun mn age => { mn with cacheInputAge := age },
  readWrite signedInt (·.cacheInputAgeBlock) fun mn block =>
    { mn with cacheInputAgeBlock := block },
  readWrite bool (·.unitTest) fun mn unitTest => { mn with unitTest },
  readWrite bool (·.allowFreeTx) fun mn allowFreeTx => { mn with allowFreeTx },
  readWrite int64 (·.nLastDsq) fun mn nLastDsq => { mn with nLastDsq },
  readWrite signedInt (·.nScanningErrorCount) fun mn count =>
    { mn with nScanningErrorCount := count },
  readWrite signedInt (·.nLastScanningErrorBlockHeight) fun mn height =>
    { mn with nLastScanningErrorBlockHeight := height }]

/-- `CMasternodeBroadcast::SerializationOp`. -/
def broadcast : Codec CMasternodeBroadcast := object ⟨.fresh 0⟩ [
  readWrite txIn (·.vin) fun mnb vin => { mnb with vin },
  readWrite service (·.addr) fun mnb addr => { mnb with addr },
  readWrite pubKey (·.pubKeyCollateralAddress) fun mnb key =>
    { mnb with pubKeyCollateralAddress := key },
  readWrite pubKey (·.pubKeyMasternode) fun mnb key => { mnb with pubKeyMasternode := key },
  readWrite byteVector (·.sig) fun mnb sig => { mnb with sig },
  readWrite int64 (·.sigTime) fun mnb sigTime => { mnb with sigTime },
  readWrite signedInt (·.protocolVersion) fun mnb version =>
    { mnb with protocolVersion := version },
  readWrite ping (·.lastPing) fun mnb lastPing => { mnb with lastPing },
  readWrite int64 (·.nLastDsq) fun mnb nLastDsq => { mnb with nLastDsq }]

def CMasternodeMan.fresh : CMasternodeMan := ⟨[], ∅, ∅, ∅, 0, ∅, ∅⟩

/-- `CMasternodeMan::SerializationOp`, the content of mncache.dat. -/
def masternodeMan : Codec CMasternodeMan := object CMasternodeMan.fresh [
  readWrite masternode.list (·.vMasternodes) fun man entries => { man with vMasternodes := entries },
  readWrite (netAddr.map int64) (·.mAskedUsForMasternodeList) fun man asked =>
    { man with mAskedUsForMasternodeList := asked },
  readWrite (netAddr.map int64) (·.mWeAskedForMasternodeList) fun man asked =>
    { man with mWeAskedForMasternodeList := asked },
  readWrite (outPoint.map int64) (·.mWeAskedForMasternodeListEntry) fun man asked =>
    { man with mWeAskedForMasternodeListEntry := asked },
  readWrite int64 (·.nDsqCount) fun man nDsqCount => { man with nDsqCount },
  readWrite (uint256.map broadcast) (·.mapSeenMasternodeBroadcast) fun man seen =>
    { man with mapSeenMasternodeBroadcast := seen },
  readWrite (uint256.map ping) (·.mapSeenMasternodePing) fun man seen =>
    { man with mapSeenMasternodePing := seen }]

def masternodePayee : Codec CMasternodePayee := object ⟨[], 0, UNKNOWN⟩ [
  readWrite byteVector (·.scriptPubKey) fun payee script => { payee with scriptPubKey := script },
  readWrite signedInt (·.nVotes) fun payee nVotes => { payee with nVotes },
  readWrite unsignedInt (·.mnTier) fun payee mnTier => { payee with mnTier }]

def blockPayees : Codec CMasternodeBlockPayees := object ⟨0, []⟩ [
  readWrite signedInt (·.nBlockHeight) fun block nBlockHeight => { block with nBlockHeight },
  readWrite masternodePayee.list (·.vecPayments) fun block vecPayments =>
    { block with vecPayments }]

/-- `CMasternodePaymentWinner::SerializationOp`. -/
def paymentWinner : Codec CMasternodePaymentWinner := object ⟨CTxIn.fresh, 0, [], [], UNKNOWN⟩ [
  readWrite txIn (·.vinMasternode) fun winner vin => { winner with vinMasternode := vin },
  readWrite signedInt (·.nBlockHeight) fun winner nBlockHeight => { winner with nBlockHeight },
  readWrite byteVector (·.payee) fun winner payee => { winner with payee },
  readWrite byteVector (·.vchSig) fun winner vchSig => { winner with vchSig }]

/-- `CMasternodePayments::SerializationOp`, the content of mnpayments.dat. -/
def masternodePayments : Codec CMasternodePayments := object ⟨∅, ∅, ∅⟩ [
  readWrite (uint256.map paymentWinner) (·.mapMasternodePayeeVotes) fun payments votes =>
    { payments with mapMasternodePayeeVotes := votes },
  readWrite (signedInt.map blockPayees) (·.mapMasternodeBlocks) fun payments blocks =>
    { payments with mapMasternodeBlocks := blocks }]

section Lossless

theorem unsignedInt_lossless : unsignedInt.Lossless := by
  intro value
  have bound := value.toNat_lt
  simp only [unsignedInt, Codec.via, number]
  rw [Nat.mod_eq_of_lt (by omega)]
  exact UInt32.ofNat_toNat

theorem signedInt_lossless : signedInt.Lossless := by
  intro value
  simp only [signedInt, Codec.via, unsignedInt_lossless value.toUInt32]
  exact Int32.toInt32_toUInt32 value

theorem int64_lossless : int64.Lossless := by
  intro value
  have bound := value.toUInt64.toNat_lt
  simp only [int64, Codec.via, number]
  rw [Nat.mod_eq_of_lt (by omega), UInt64.ofNat_toNat]
  exact Int64.toInt64_toUInt64 value

theorem bool_lossless : bool.Lossless := by
  intro value
  cases value <;> rfl

theorem byteVector_lossless : byteVector.Lossless := list_lossless byte_lossless

theorem uint256_lossless : uint256.Lossless := by
  intro value
  simp only [uint256, Codec.via, number]
  rw [Nat.mod_eq_of_lt (by omega)]
  exact BitVec.ofNat_toNat 256 value

theorem pubKey_lossless : pubKey.Lossless := fun _ => rfl

theorem outPoint_lossless : outPoint.Lossless := by
  intro out
  simp [outPoint, object, copyMembers, readWrite, uint256_lossless out.hash,
    unsignedInt_lossless out.n]

theorem txIn_lossless : txIn.Lossless := by
  intro vin
  simp [txIn, object, copyMembers, readWrite, outPoint_lossless vin.prevout,
    byteVector_lossless vin.scriptSig, unsignedInt_lossless vin.nSequence]

theorem netAddr_lossless : netAddr.Lossless := by
  intro addr
  simp only [netAddr, Codec.via, networkOrder]
  rw [Nat.mod_eq_of_lt (by omega)]
  simp

theorem service_lossless : service.Lossless := by
  intro addr
  have bound := addr.port.toNat_lt
  have port : UInt16.ofNat (addr.port.toNat % 256 ^ 2) = addr.port := by
    rw [Nat.mod_eq_of_lt (by omega)]
    exact UInt16.ofNat_toNat
  simp only [service, object, copyMembers, readWrite, netAddr_lossless addr.toCNetAddr]
  simp only [Codec.via, networkOrder, port]

theorem ping_lossless : ping.Lossless := by
  intro mnp
  simp [ping, object, copyMembers, readWrite, txIn_lossless mnp.vin, uint256_lossless mnp.blockHash,
    int64_lossless mnp.sigTime, byteVector_lossless mnp.vchSig]

theorem masternodePayee_lossless : masternodePayee.Lossless := by
  intro payee
  simp [masternodePayee, object, copyMembers, readWrite, byteVector_lossless payee.scriptPubKey,
    signedInt_lossless payee.nVotes, unsignedInt_lossless payee.mnTier]

theorem blockPayees_lossless : blockPayees.Lossless := by
  intro block
  simp [blockPayees, object, copyMembers, readWrite, signedInt_lossless block.nBlockHeight,
    list_lossless masternodePayee_lossless block.vecPayments]

end Lossless

theorem masternode_kept (mn : CMasternode) : masternode.kept mn = mn.listed := by
  simp only [masternode, object, copyMembers, readWrite, txIn_lossless mn.vin,
    service_lossless mn.addr, pubKey_lossless mn.pubKeyCollateralAddress,
    pubKey_lossless mn.pubKeyMasternode, byteVector_lossless mn.sig, int64_lossless mn.sigTime,
    signedInt_lossless mn.protocolVersion, signedInt_lossless mn.activeState,
    ping_lossless mn.lastPing, signedInt_lossless mn.cacheInputAge,
    signedInt_lossless mn.cacheInputAgeBlock, bool_lossless mn.unitTest,
    bool_lossless mn.allowFreeTx, int64_lossless mn.nLastDsq,
    signedInt_lossless mn.nScanningErrorCount,
    signedInt_lossless mn.nLastScanningErrorBlockHeight]
  rfl

def relayed (mnb : CMasternodeBroadcast) : CMasternodeBroadcast :=
  ⟨{ CMasternode.fresh 0 with
      vin := mnb.vin
      addr := mnb.addr
      pubKeyCollateralAddress := mnb.pubKeyCollateralAddress
      pubKeyMasternode := mnb.pubKeyMasternode
      sig := mnb.sig
      sigTime := mnb.sigTime
      protocolVersion := mnb.protocolVersion
      lastPing := mnb.lastPing
      nLastDsq := mnb.nLastDsq }⟩

theorem broadcast_kept (mnb : CMasternodeBroadcast) : broadcast.kept mnb = relayed mnb := by
  simp only [broadcast, object, copyMembers, readWrite, txIn_lossless mnb.vin,
    service_lossless mnb.addr, pubKey_lossless mnb.pubKeyCollateralAddress,
    pubKey_lossless mnb.pubKeyMasternode, byteVector_lossless mnb.sig,
    int64_lossless mnb.sigTime, signedInt_lossless mnb.protocolVersion,
    ping_lossless mnb.lastPing, int64_lossless mnb.nLastDsq]
  rfl

theorem paymentWinner_kept (winner : CMasternodePaymentWinner) :
    paymentWinner.kept winner = { winner with payeeTier := UNKNOWN } := by
  simp [paymentWinner, object, copyMembers, readWrite, txIn_lossless winner.vinMasternode,
    signedInt_lossless winner.nBlockHeight, byteVector_lossless winner.payee,
    byteVector_lossless winner.vchSig]

def asRead (mn : CMasternode) : CMasternode :=
  { mn with
    nLastDsee := 0
    nLastDseep := 0
    pubKeyCollateralAddress1 := .invalid
    pubKeyMasternode1 := .invalid }

/-- The manager read back holds what the program reads of the one written. -/
structure ManKept (loaded saved : CMasternodeMan) : Prop where
  masternodes : loaded.vMasternodes.map asRead = saved.vMasternodes.map asRead
  askedUs : loaded.mAskedUsForMasternodeList = saved.mAskedUsForMasternodeList
  weAsked : loaded.mWeAskedForMasternodeList = saved.mWeAskedForMasternodeList
  weAskedEntry : loaded.mWeAskedForMasternodeListEntry = saved.mWeAskedForMasternodeListEntry
  dsqCount : loaded.nDsqCount = saved.nDsqCount
  broadcasts : loaded.mapSeenMasternodeBroadcast.entries.map (fun e => (e.1, relayed e.2)) =
    saved.mapSeenMasternodeBroadcast.entries.map fun e => (e.1, relayed e.2)
  pings : loaded.mapSeenMasternodePing = saved.mapSeenMasternodePing

structure PaymentsKept (loaded saved : CMasternodePayments) : Prop where
  votes : loaded.mapMasternodePayeeVotes = saved.mapMasternodePayeeVotes
  blocks : loaded.mapMasternodeBlocks = saved.mapMasternodeBlocks

/-- No vector is longer, and no map larger, than a reader accepts. -/
structure ShortEntry (mn : CMasternode) : Prop where
  scriptSig : mn.vin.scriptSig.length ≤ maxSize
  sig : mn.sig.length ≤ maxSize
  pingScript : mn.lastPing.vin.scriptSig.length ≤ maxSize
  pingSig : mn.lastPing.vchSig.length ≤ maxSize

structure ShortMan (man : CMasternodeMan) : Prop where
  masternodes : man.vMasternodes.length ≤ maxSize ∧ ∀ mn ∈ man.vMasternodes, ShortEntry mn
  askedUs : man.mAskedUsForMasternodeList.size ≤ maxSize
  weAsked : man.mWeAskedForMasternodeList.size ≤ maxSize
  weAskedEntry : man.mWeAskedForMasternodeListEntry.size ≤ maxSize
  broadcasts : man.mapSeenMasternodeBroadcast.size ≤ maxSize ∧
    ∀ e ∈ man.mapSeenMasternodeBroadcast.entries, ShortEntry e.2.toCMasternode
  pings : man.mapSeenMasternodePing.size ≤ maxSize ∧
    ∀ e ∈ man.mapSeenMasternodePing.entries,
      e.2.vin.scriptSig.length ≤ maxSize ∧ e.2.vchSig.length ≤ maxSize

structure ShortPayments (payments : CMasternodePayments) : Prop where
  votes : payments.mapMasternodePayeeVotes.size ≤ maxSize ∧
    ∀ e ∈ payments.mapMasternodePayeeVotes.entries, e.2.vinMasternode.scriptSig.length ≤ maxSize ∧
      e.2.payee.length ≤ maxSize ∧ e.2.vchSig.length ≤ maxSize
  blocks : payments.mapMasternodeBlocks.size ≤ maxSize ∧
    ∀ e ∈ payments.mapMasternodeBlocks.entries, e.2.vecPayments.length ≤ maxSize ∧
      ∀ payee ∈ e.2.vecPayments, payee.scriptPubKey.length ≤ maxSize

theorem byteVector_fits (bytes : List UInt8) : byteVector.Fits bytes ↔ bytes.length ≤ maxSize := by
  simp [byteVector, Codec.list, byte, Codec.via, number]

theorem txIn_fits (vin : CTxIn) : txIn.Fits vin ↔ vin.scriptSig.length ≤ maxSize := by
  simp [txIn, object, readWrite, byteVector_fits, outPoint, uint256, unsignedInt, Codec.via, number]

theorem ping_fits (mnp : CMasternodePing) : ping.Fits mnp ↔
    mnp.vin.scriptSig.length ≤ maxSize ∧ mnp.vchSig.length ≤ maxSize := by
  simp [ping, object, readWrite, byteVector_fits, txIn_fits, uint256, int64, Codec.via, number]

theorem service_fits (addr : CService) : service.Fits addr := by
  simp [service, object, readWrite, netAddr, Codec.via, networkOrder]

theorem masternode_fits (mn : CMasternode) : masternode.Fits mn ↔ ShortEntry mn := by
  constructor
  · intro fits
    simp [masternode, object, readWrite, txIn_fits, byteVector_fits, ping_fits] at fits
    exact ⟨fits.1, fits.2.2.2.2.1, fits.2.2.2.2.2.2.2.2.1.1, fits.2.2.2.2.2.2.2.2.1.2⟩
  · intro short
    simp [masternode, object, readWrite, txIn_fits, byteVector_fits, ping_fits, service_fits,
      pubKey, int64, signedInt, unsignedInt, bool, Codec.via, number, short.scriptSig, short.sig,
      short.pingScript, short.pingSig]

theorem broadcast_fits (mnb : CMasternodeBroadcast) :
    broadcast.Fits mnb ↔ ShortEntry mnb.toCMasternode := by
  constructor
  · intro fits
    simp [broadcast, object, readWrite, txIn_fits, byteVector_fits, ping_fits] at fits
    exact ⟨fits.1, fits.2.2.2.2.1, fits.2.2.2.2.2.2.2.1.1, fits.2.2.2.2.2.2.2.1.2⟩
  · intro short
    simp [broadcast, object, readWrite, txIn_fits, byteVector_fits, ping_fits, service_fits,
      pubKey, int64, signedInt, unsignedInt, Codec.via, number, short.scriptSig, short.sig,
      short.pingScript, short.pingSig]

theorem map_fits {Key Value : Type} [MapKey Key] (key : Codec Key) (value : Codec Value)
    (keysFit : ∀ k, key.Fits k) (map : OrderedMap Key Value) :
    (key.map value).Fits map ↔ map.size ≤ maxSize ∧ ∀ e ∈ map.entries, value.Fits e.2 := by
  simp [Codec.map, Codec.via, Codec.list, Codec.pair, keysFit, OrderedMap.size]

theorem netAddr_fits (addr : CNetAddr) : netAddr.Fits addr := trivial

theorem int64_fits (value : Int64) : int64.Fits value := trivial

theorem signedInt_fits (value : Int32) : signedInt.Fits value := trivial

theorem uint256_fits (value : Uint256) : uint256.Fits value := trivial

theorem outPoint_fits (out : COutPoint) : outPoint.Fits out := by
  simp [outPoint, object, readWrite, uint256, unsignedInt, Codec.via, number]

theorem masternodeMan_fits (man : CMasternodeMan) : masternodeMan.Fits man ↔ ShortMan man := by
  have listed : masternodeMan.Fits man ↔
      (masternode.list.Fits man.vMasternodes) ∧
      ((netAddr.map int64).Fits man.mAskedUsForMasternodeList) ∧
      ((netAddr.map int64).Fits man.mWeAskedForMasternodeList) ∧
      ((outPoint.map int64).Fits man.mWeAskedForMasternodeListEntry) ∧
      ((uint256.map broadcast).Fits man.mapSeenMasternodeBroadcast) ∧
      ((uint256.map ping).Fits man.mapSeenMasternodePing) := by
    simp [masternodeMan, object, readWrite, int64_fits]
  rw [listed, map_fits netAddr int64 netAddr_fits, map_fits netAddr int64 netAddr_fits,
    map_fits outPoint int64 outPoint_fits, map_fits uint256 broadcast uint256_fits,
    map_fits uint256 ping uint256_fits]
  simp only [Codec.list, masternode_fits, broadcast_fits, ping_fits, int64_fits, implies_true,
    and_true]
  constructor
  · rintro ⟨masternodes, askedUs, weAsked, weAskedEntry, broadcasts, pings⟩
    exact ⟨masternodes, askedUs, weAsked, weAskedEntry, broadcasts, pings⟩
  · rintro ⟨masternodes, askedUs, weAsked, weAskedEntry, broadcasts, pings⟩
    exact ⟨masternodes, askedUs, weAsked, weAskedEntry, broadcasts, pings⟩

theorem paymentWinner_fits (winner : CMasternodePaymentWinner) : paymentWinner.Fits winner ↔
    winner.vinMasternode.scriptSig.length ≤ maxSize ∧ winner.payee.length ≤ maxSize ∧
      winner.vchSig.length ≤ maxSize := by
  simp [paymentWinner, object, readWrite, txIn_fits, byteVector_fits, signedInt_fits]

theorem blockPayees_fits (block : CMasternodeBlockPayees) : blockPayees.Fits block ↔
    block.vecPayments.length ≤ maxSize ∧
      ∀ payee ∈ block.vecPayments, payee.scriptPubKey.length ≤ maxSize := by
  simp [blockPayees, object, readWrite, Codec.list, masternodePayee, byteVector_fits,
    signedInt_fits, unsignedInt, Codec.via, number]

theorem masternodePayments_fits (payments : CMasternodePayments) :
    masternodePayments.Fits payments ↔ ShortPayments payments := by
  have listed : masternodePayments.Fits payments ↔
      ((uint256.map paymentWinner).Fits payments.mapMasternodePayeeVotes) ∧
      ((signedInt.map blockPayees).Fits payments.mapMasternodeBlocks) := by
    simp [masternodePayments, object, readWrite]
  rw [listed, map_fits uint256 paymentWinner uint256_fits,
    map_fits signedInt blockPayees signedInt_fits]
  simp only [paymentWinner_fits, blockPayees_fits]
  constructor
  · rintro ⟨votes, blocks⟩
    exact ⟨votes, blocks⟩
  · rintro ⟨votes, blocks⟩
    exact ⟨votes, blocks⟩

theorem masternode_asRead_iff (mn : CMasternode) :
    asRead (masternode.kept mn) = asRead mn ↔
      mn.deposit = 0 ∧ mn.nActiveState = MASTERNODE_ENABLED ∧ mn.lastTimeChecked = 0 := by
  rw [masternode_kept]
  simp only [asRead, CMasternode.listed, CMasternode.withUnlisted, CMasternode.unlisted,
    CMasternode.fresh, CMasternode.mk.injEq, true_and]
  constructor
  · rintro ⟨deposit, state, checked⟩
    exact ⟨deposit.symm, state.symm, checked.symm⟩
  · rintro ⟨deposit, state, checked⟩
    exact ⟨deposit.symm, state.symm, checked.symm⟩

theorem man_kept_iff (man : CMasternodeMan) :
    ManKept (masternodeMan.kept man) man ↔ ∀ mn ∈ man.vMasternodes,
      mn.deposit = 0 ∧ mn.nActiveState = MASTERNODE_ENABLED ∧ mn.lastTimeChecked = 0 := by
  have masternodes : (masternodeMan.kept man).vMasternodes =
      man.vMasternodes.map masternode.kept := rfl
  have reads : ((man.vMasternodes.map masternode.kept).map asRead =
      man.vMasternodes.map asRead) ↔ ∀ mn ∈ man.vMasternodes,
        mn.deposit = 0 ∧ mn.nActiveState = MASTERNODE_ENABLED ∧ mn.lastTimeChecked = 0 := by
    simp [masternode_asRead_iff]
  constructor
  · intro kept
    exact reads.mp (masternodes ▸ kept.masternodes)
  · intro plain
    constructor
    · exact masternodes ▸ reads.mpr plain
    · exact map_lossless netAddr_lossless int64_lossless _
    · exact map_lossless netAddr_lossless int64_lossless _
    · exact map_lossless outPoint_lossless int64_lossless _
    · exact int64_lossless _
    · have entries := map_kept_entries broadcast uint256_lossless man.mapSeenMasternodeBroadcast
      have same : (masternodeMan.kept man).mapSeenMasternodeBroadcast =
        (uint256.map broadcast).kept man.mapSeenMasternodeBroadcast := rfl
      rw [same, entries, List.map_map]
      apply List.map_congr_left
      intro e _
      simp only [Function.comp_apply, broadcast_kept]
      rfl
    · exact map_lossless uint256_lossless ping_lossless _

theorem payments_kept_iff (payments : CMasternodePayments) :
    PaymentsKept (masternodePayments.kept payments) payments ↔
      ∀ e ∈ payments.mapMasternodePayeeVotes.entries, e.2.payeeTier = UNKNOWN := by
  have entries := map_kept_entries paymentWinner uint256_lossless payments.mapMasternodePayeeVotes
  have same : (masternodePayments.kept payments).mapMasternodePayeeVotes =
    (uint256.map paymentWinner).kept payments.mapMasternodePayeeVotes := rfl
  have votes : (masternodePayments.kept payments).mapMasternodePayeeVotes =
      payments.mapMasternodePayeeVotes ↔
        ∀ e ∈ payments.mapMasternodePayeeVotes.entries, e.2.payeeTier = UNKNOWN := by
    have keeps : ∀ e : Uint256 × CMasternodePaymentWinner,
        (e.1, paymentWinner.kept e.2) = e ↔ e.2.payeeTier = UNKNOWN := by
      rintro ⟨key, winner⟩
      cases winner
      simp only [paymentWinner_kept, Prod.mk.injEq, CMasternodePaymentWinner.mk.injEq, true_and]
      exact eq_comm
    constructor
    · intro unchanged e member
      rw [same] at unchanged
      rw [unchanged] at entries
      have fixed : payments.mapMasternodePayeeVotes.entries.map id =
          payments.mapMasternodePayeeVotes.entries.map
            fun e => (e.1, paymentWinner.kept e.2) := by rwa [List.map_id]
      have kept := List.map_inj_left.mp fixed e member
      exact (keeps e).mp kept.symm
    · intro unknown
      rw [same]
      apply OrderedMap.ext
      rw [entries]
      have fixed : payments.mapMasternodePayeeVotes.entries.map
          (fun e => (e.1, paymentWinner.kept e.2)) =
            payments.mapMasternodePayeeVotes.entries.map id := by
        apply List.map_congr_left
        intro e member
        exact (keeps e).mpr (unknown e member)
      rw [fixed, List.map_id]
  constructor
  · intro kept
    exact votes.mp kept.votes
  · intro unknown
    constructor
    · exact votes.mpr unknown
    · exact map_lossless signedInt_lossless blockPayees_lossless _

/-- What is written to a cache file is read back as the program reads it if and only
    if it is short enough to be read, no masternode has a deposit, another second state
    or a check time, and no vote has a tier. -/
theorem stores_kept_iff (man : CMasternodeMan) (payments : CMasternodePayments) :
    ((∃ loaded, masternodeMan.read (masternodeMan.write man) = some (loaded, []) ∧
        ManKept loaded man) ↔
      ShortMan man ∧ ∀ mn ∈ man.vMasternodes,
        mn.deposit = 0 ∧ mn.nActiveState = MASTERNODE_ENABLED ∧ mn.lastTimeChecked = 0) ∧
    ((∃ loaded, masternodePayments.read (masternodePayments.write payments) =
        some (loaded, []) ∧ PaymentsKept loaded payments) ↔
      ShortPayments payments ∧
        ∀ e ∈ payments.mapMasternodePayeeVotes.entries, e.2.payeeTier = UNKNOWN) := by
  constructor
  · rw [read_back_iff masternodeMan man (ManKept · man), masternodeMan_fits, man_kept_iff]
  · rw [read_back_iff masternodePayments payments (PaymentsKept · payments),
      masternodePayments_fits, payments_kept_iff]

theorem twoEntries_short : ShortMan twoEntries := by
  constructor
  · constructor
    · decide
    · intro mn member
      have either : mn = supernodeEntry ∨ mn = masternodeEntry := by
        simpa [twoEntries] using member
      rcases either with super | master
      · subst super
        constructor <;> decide
      · subst master
        constructor <;> decide
  · decide
  · decide
  · decide
  · constructor
    · decide
    · intro e member
      cases member
  · constructor
    · decide
    · intro e member
      cases member

def oneVote : CMasternodePayments where
  mapMasternodePayeeVotes := (∅ : OrderedMap Uint256 CMasternodePaymentWinner).set 1
    ⟨CTxIn.fresh, 100, [], [], SUPERNODE⟩
  mapMasternodeBlocks := ∅
  mapMasternodesLastVote := ∅

theorem stores_lose_tiers :
    (masternodeMan.read (masternodeMan.write twoEntries)).map
        (fun loaded => loaded.1.vMasternodes.map CMasternode.mnTier) = some [UNKNOWN, UNKNOWN] ∧
      twoEntries.vMasternodes.map CMasternode.mnTier = [SUPERNODE, MASTERNODE] ∧
      (∀ loaded, masternodeMan.read (masternodeMan.write twoEntries) = some (loaded, []) →
        ¬ ManKept loaded twoEntries) ∧
      (∀ loaded, masternodePayments.read (masternodePayments.write oneVote) =
        some (loaded, []) → ¬ PaymentsKept loaded oneVote) := by
  have back := masternodeMan.reads_back twoEntries [] ((masternodeMan_fits _).mpr twoEntries_short)
  rw [List.append_nil] at back
  constructor
  · rw [back]
    rfl
  · constructor
    · decide
    · constructor
      · intro loaded read kept
        have plain := (read_back_iff masternodeMan twoEntries (ManKept · twoEntries)).mp
          ⟨loaded, read, kept⟩
        have deposit := ((man_kept_iff twoEntries).mp plain.2 supernodeEntry
          List.mem_cons_self).1
        exact absurd deposit (by decide)
      · intro loaded read kept
        have plain := (read_back_iff masternodePayments oneVote (PaymentsKept · oneVote)).mp
          ⟨loaded, read, kept⟩
        have tier := (payments_kept_iff oneVote).mp plain.2 (1, ⟨CTxIn.fresh, 100, [], [], SUPERNODE⟩)
        exact absurd tier (by decide)

end OxidMasternodeStore
