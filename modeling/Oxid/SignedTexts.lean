import Oxid.BudgetVotes
import Oxid.Library.Numerals
import Oxid.Sporks

/-!
The texts that masternodes sign: budget votes, payment winners, broadcasts and pings.
Numbers follow each other in these texts without a mark; a broadcast leaves its outpoint
out; a ping has marks. How addresses and scripts are printed is a parameter.
-/
namespace OxidSignedTexts
open OxidPrimitives OxidMasternode OxidMasternodePayments OxidBudgetVotes OxidSporks Numerals

section Texts

/-- `ToString` of addresses and of scripts. -/
structure Printing where
  service : CService → List Char
  script : CScript → List Char

def chars (text : String) : List Char := text.toList

def getHex (hash : Uint256) : List Char := hexText 64 hash.toNat

def hexStr (bytes : List UInt8) : List Char := bytes.flatMap fun byte => hexText 2 byte.toNat

def raw (bytes : List UInt8) : List Char := bytes.map Char.ofUInt8

def toStringShort (out : COutPoint) : List Char :=
  (getHex out.hash).take 64 ++ '-' :: decimal out.n.toNat

def outPointToString (out : COutPoint) : List Char :=
  chars "COutPoint(" ++ getHex out.hash ++ [',', ' '] ++ decimal out.n.toNat ++ [')']

/-- What `CTxIn::ToString` prints of the script. -/
def scriptToString (printing : Printing) (vin : CTxIn) : List Char :=
  if vin.prevout.isNull then
    if CScript.isZerocoinSpend vin.scriptSig then chars ", zerocoinspend " ++ hexStr vin.scriptSig
    else chars ", coinbase " ++ hexStr vin.scriptSig
  else chars ", scriptSig=" ++ (printing.script vin.scriptSig).take 24

def txInToString (printing : Printing) (vin : CTxIn) : List Char :=
  chars "CTxIn(" ++ outPointToString vin.prevout ++ scriptToString printing vin ++
    (if vin.nSequence != 0xffffffff then
      chars ", nSequence=" ++ decimal vin.nSequence.toNat
    else []) ++ [')']

/-- `strMessage` of `CBudgetVote`. -/
def voteMessage (vote : CBudgetVote) : List Char :=
  toStringShort vote.vin.prevout ++ getHex vote.nProposalHash ++ decimal vote.nVote.toInt ++
    decimal vote.nTime.toInt

/-- `strMessage` of `CMasternodePaymentWinner`. -/
def winnerMessage (printing : Printing) (winner : CMasternodePaymentWinner) : List Char :=
  toStringShort winner.vinMasternode.prevout ++ decimal winner.nBlockHeight.toInt ++
    printing.script winner.payee

/-- `strMessage` of `CMasternodeBroadcast`. -/
def broadcastMessage (printing : Printing) (mnb : CMasternodeBroadcast) : List Char :=
  printing.service mnb.addr ++ decimal mnb.sigTime.toInt ++
    raw mnb.pubKeyCollateralAddress.bytes ++ raw mnb.pubKeyMasternode.bytes ++
    decimal mnb.protocolVersion.toInt

/-- `strMessage` of `CMasternodePing`. -/
def pingMessage (printing : Printing) (mnp : CMasternodePing) : List Char :=
  txInToString printing mnp.vin ++ getHex mnp.blockHash ++ decimal mnp.sigTime.toInt

end Texts

section Acts

def voteActs (vote : CBudgetVote) : COutPoint × Uint256 × Int32 × Int64 :=
  (vote.vin.prevout, vote.nProposalHash, vote.nVote, vote.nTime)

/-- The tier of a winner is not sent: the receiver sets it, from the masternode it knows
    the payee of. -/
def winnerActs (tiers : CScript → UInt32) (winner : CMasternodePaymentWinner) :
    COutPoint × Int32 × CScript × UInt32 :=
  (winner.vinMasternode.prevout, winner.nBlockHeight, winner.payee, tiers winner.payee)

def broadcastActs (mnb : CMasternodeBroadcast) :
    COutPoint × CService × Int64 × CPubKey × CPubKey × Int32 :=
  (mnb.vin.prevout, mnb.addr, mnb.sigTime, mnb.pubKeyCollateralAddress, mnb.pubKeyMasternode,
    mnb.protocolVersion)

def pingActs (mnp : CMasternodePing) : COutPoint × Uint256 × Int64 :=
  (mnp.vin.prevout, mnp.blockHash, mnp.sigTime)

def Unreplayable {Message Acts : Type} (text : Message → List Char) (acts : Message → Acts)
    (message : Message) : Prop :=
  ∀ other, text other = text message → acts other = acts message

inductive SignedMessage where
  | vote (cast : CBudgetVote)
  | winner (elected : CMasternodePaymentWinner)
  | broadcast (mnb : CMasternodeBroadcast)
  | ping (mnp : CMasternodePing)

def SignedMessage.SignsAll (printing : Printing) (tiers : CScript → UInt32) :
    SignedMessage → Prop
  | .vote cast => Unreplayable voteMessage voteActs cast
  | .winner elected => Unreplayable (winnerMessage printing) (winnerActs tiers) elected
  | .broadcast mnb => Unreplayable (broadcastMessage printing) broadcastActs mnb
  | .ping mnp => Unreplayable (pingMessage printing) pingActs mnp

end Acts

section Integers

def integerValue (text : List Char) : Int :=
  if text.head? = some '-' then -(value text.tail) else value text

def IsInteger (text : List Char) : Prop :=
  if text.head? = some '-' then IsNumeral text.tail ∧ text.tail ≠ ['0'] else IsNumeral text

/-- A text that `lexical_cast` writes for a number of `bits` bits. -/
def ReadsInteger (bits : Nat) (text : List Char) : Prop :=
  IsInteger text ∧ -((2 ^ (bits - 1) : Nat) : Int) ≤ integerValue text ∧
    integerValue text < (2 ^ (bits - 1) : Nat)

variable {text : List Char}

theorem numeral_unsigned (numeral : IsNumeral text) :
    text.head? ≠ some '-' := by
  intro sign
  have digit := numeral.digits '-' (List.mem_of_mem_head? sign)
  exact absurd digit (by decide)

theorem integerValue_decimal (z : Int) :
    IsInteger (decimal z) ∧ integerValue (decimal z) = z := by
  cases z with
  | ofNat n =>
    have numeral := toDigits_isNumeral n
    simp [decimal, IsInteger, integerValue, numeral_unsigned numeral, numeral]
  | negSucc n =>
    have nonzero : Nat.toDigits 10 (n + 1) ≠ ['0'] := by
      intro zero
      have none := toDigits_lead (n + 1) (by rw [zero]; rfl)
      omega
    refine ⟨by simpa [decimal, IsInteger] using ⟨toDigits_isNumeral (n + 1), nonzero⟩, ?_⟩
    simp [decimal, integerValue, Int.negSucc_eq]

theorem decimal_integerValue (text : List Char) (integer : IsInteger text) :
    decimal (integerValue text) = text := by
  by_cases sign : text.head? = some '-'
  · obtain ⟨rest, rfl⟩ : ∃ rest, text = '-' :: rest := by
      cases text with
      | nil => simp at sign
      | cons c rest => exact ⟨rest, by simpa using sign⟩
    obtain ⟨numeral, nonzero⟩ := integer
    have same := toDigits_value rest numeral
    obtain ⟨less, positive⟩ : ∃ less, value rest = less + 1 := by
      refine ⟨value rest - 1, (Nat.sub_add_cancel (Nat.pos_of_ne_zero ?_)).symm⟩
      intro zero
      rw [zero] at same
      exact nonzero same.symm
    rw [positive] at same
    have negative : integerValue ('-' :: rest) = Int.negSucc less := by
      simp [integerValue, positive, Int.negSucc_eq]
    rw [negative, decimal, same]
  · simp only [IsInteger, sign, if_false] at integer
    have natural : integerValue text = Int.ofNat (value text) := by simp [integerValue, sign]
    rw [natural, decimal, toDigits_value text integer]

theorem decimal_injective {a b : Int} (same : decimal a = decimal b) : a = b := by
  rw [← (integerValue_decimal a).2, same, (integerValue_decimal b).2]

theorem int32_reads (z : Int32) : ReadsInteger 32 (decimal z.toInt) := by
  obtain ⟨integer, same⟩ := integerValue_decimal z.toInt
  have least := z.le_toInt
  have most := z.toInt_lt
  refine ⟨integer, ?_, ?_⟩
  · rw [same]
    omega
  · rw [same]
    omega

theorem int64_reads (z : Int64) : ReadsInteger 64 (decimal z.toInt) := by
  obtain ⟨integer, same⟩ := integerValue_decimal z.toInt
  have least := z.le_toInt
  have most := z.toInt_lt
  refine ⟨integer, ?_, ?_⟩
  · rw [same]
    omega
  · rw [same]
    omega

theorem int32_of_reads (reads : ReadsInteger 32 text) :
    ∃ z : Int32, decimal z.toInt = text := by
  obtain ⟨integer, least, most⟩ := reads
  refine ⟨Int32.ofInt (integerValue text), ?_⟩
  rw [Int32.toInt_ofInt_of_le least most, decimal_integerValue text integer]

theorem int64_of_reads (reads : ReadsInteger 64 text) :
    ∃ z : Int64, decimal z.toInt = text := by
  obtain ⟨integer, least, most⟩ := reads
  refine ⟨Int64.ofInt (integerValue text), ?_⟩
  rw [Int64.toInt_ofInt_of_le least most, decimal_integerValue text integer]

end Integers

section Cuts

variable {printing : Printing} {tiers : CScript → UInt32}

def voteDigits (vote : CBudgetVote) : List Char :=
  decimal vote.vin.prevout.n.toNat ++ getHex vote.nProposalHash ++ decimal vote.nVote.toInt ++
    decimal vote.nTime.toInt

/-- Digits cut after `i` characters and, behind a hash, after `j` more read as a vote. -/
structure VoteCut (digits : List Char) (i j : Nat) : Prop where
  index : IsNumeral (digits.take i) ∧ value (digits.take i) < 2 ^ 32
  proposal : IsHex 64 ((digits.drop i).take 64)
  nVote : ReadsInteger 32 (((digits.drop i).drop 64).take j)
  nTime : ReadsInteger 64 (((digits.drop i).drop 64).drop j)

def VoteReadsOnce (vote : CBudgetVote) : Prop :=
  ∀ i j, VoteCut (voteDigits vote) i j →
    i = (decimal vote.vin.prevout.n.toNat).length ∧ j = (decimal vote.nVote.toInt).length

def winnerDigits (printing : Printing) (winner : CMasternodePaymentWinner) : List Char :=
  decimal winner.vinMasternode.prevout.n.toNat ++ decimal winner.nBlockHeight.toInt ++
    printing.script winner.payee

structure WinnerCut (printing : Printing) (digits : List Char) (i j : Nat) (payee : CScript) :
    Prop where
  within : i + j ≤ digits.length
  index : IsNumeral (digits.take i) ∧ value (digits.take i) < 2 ^ 32
  height : ReadsInteger 32 ((digits.drop i).take j)
  payee : printing.script payee = (digits.drop i).drop j

def WinnerReadsOnce (printing : Printing) (winner : CMasternodePaymentWinner) : Prop :=
  ∀ i j payee, WinnerCut printing (winnerDigits printing winner) i j payee →
    i = (decimal winner.vinMasternode.prevout.n.toNat).length ∧
      j = (decimal winner.nBlockHeight.toInt).length ∧ payee = winner.payee

@[simp] theorem getHex_length (hash : Uint256) : (getHex hash).length = 64 := hexText_length _ _

theorem getHex_injective {a b : Uint256} (same : getHex a = getHex b) : a = b :=
  BitVec.eq_of_toNat_eq (hexText_injective a.isLt b.isLt same)

variable {text : List Char} {digits : List Char}

theorem hash_of_hex (hex : IsHex 64 text) :
    ∃ hash : Uint256, getHex hash = text := by
  obtain ⟨length, digits⟩ := hex
  have small : hexValue text < 2 ^ 256 := by
    have below := hexValue_lt text digits
    rw [length] at below
    exact below.trans_le (by norm_num)
  refine ⟨BitVec.ofNat 256 (hexValue text), ?_⟩
  rw [getHex, BitVec.toNat_ofNat, Nat.mod_eq_of_lt small, ← length, hexText_hexValue text digits]

theorem index_reads (n : UInt32) :
    IsNumeral (decimal n.toNat) ∧ value (decimal n.toNat) < 2 ^ 32 :=
  ⟨toDigits_isNumeral n.toNat, by simpa [decimal] using n.toNat_lt⟩

theorem index_of_reads (reads : IsNumeral text ∧ value text < 2 ^ 32) :
    ∃ n : UInt32, decimal n.toNat = text := by
  refine ⟨UInt32.ofNat (value text), ?_⟩
  rw [UInt32.toNat_ofNat_of_lt' reads.2]
  exact toDigits_value text reads.1

theorem index_injective {a b : UInt32} (same : decimal a.toNat = decimal b.toNat) : a = b :=
  UInt32.toNat_inj.mp (Int.ofNat_inj.mp (decimal_injective same))

theorem short_iff (a b : COutPoint) (restA restB : List Char) :
    toStringShort a ++ restA = toStringShort b ++ restB ↔
      a.hash = b.hash ∧ decimal a.n.toNat ++ restA = decimal b.n.toNat ++ restB := by
  have whole (hash : Uint256) : (getHex hash).take 64 = getHex hash :=
    List.take_of_length_le (getHex_length hash).le
  simp only [toStringShort, whole, List.append_assoc, List.cons_append]
  constructor
  · intro same
    obtain ⟨front, back⟩ := List.append_inj same (by simp)
    exact ⟨getHex_injective front, (List.cons.inj back).2⟩
  · rintro ⟨hash, back⟩
    rw [hash, back]

theorem outpoints_alike {a b : COutPoint} (hash : a.hash = b.hash) (n : a.n = b.n) : a = b := by
  cases a
  cases b
  simp only at hash n
  rw [hash, n]

theorem reads_nonempty {bits : Nat} (reads : ReadsInteger bits text) :
    text ≠ [] := by
  rintro rfl
  exact (show IsNumeral [] from reads.1).written rfl

theorem vote_cut (vote : CBudgetVote) :
    VoteCut (voteDigits vote) (decimal vote.vin.prevout.n.toNat).length
      (decimal vote.nVote.toInt).length := by
  have wide := getHex_length vote.nProposalHash
  simp only [voteDigits, List.append_assoc]
  constructor
  · rw [List.take_left]
    exact index_reads _
  · rw [List.drop_left, List.take_left' wide]
    exact hexText_isHex _ _
  · rw [List.drop_left, List.drop_left' wide, List.take_left]
    exact int32_reads _
  · rw [List.drop_left, List.drop_left' wide, List.drop_left]
    exact int64_reads _

theorem vote_of_cut (hash : Uint256) {i j : Nat} (cut : VoteCut digits i j) :
    ∃ vote, vote.vin.prevout.hash = hash ∧ voteDigits vote = digits ∧
      (decimal vote.vin.prevout.n.toNat).length = i ∧ (decimal vote.nVote.toInt).length = j := by
  obtain ⟨n, index⟩ := index_of_reads cut.index
  obtain ⟨proposal, hex⟩ := hash_of_hex cut.proposal
  obtain ⟨nVote, choice⟩ := int32_of_reads cut.nVote
  obtain ⟨nTime, time⟩ := int64_of_reads cut.nTime
  have left := List.length_pos_iff.mpr (reads_nonempty cut.nTime)
  simp only [List.length_drop] at left
  refine ⟨⟨false, false, ⟨⟨hash, n⟩, [], 0⟩, proposal, nVote, nTime, []⟩, rfl, ?_, ?_, ?_⟩
  · simp [voteDigits, index, hex, choice, time]
  · simp only [index, List.length_take]
    omega
  · simp only [choice, List.length_take, List.length_drop]
    omega

theorem voteMessage_iff (a b : CBudgetVote) :
    voteMessage a = voteMessage b ↔
      a.vin.prevout.hash = b.vin.prevout.hash ∧ voteDigits a = voteDigits b := by
  simp only [voteMessage, voteDigits, List.append_assoc]
  exact short_iff _ _ _ _

theorem votes_alike {a b : CBudgetVote} (same : voteDigits a = voteDigits b)
    (index : (decimal a.vin.prevout.n.toNat).length = (decimal b.vin.prevout.n.toNat).length)
    (choice : (decimal a.nVote.toInt).length = (decimal b.nVote.toInt).length) :
    a.vin.prevout.n = b.vin.prevout.n ∧ a.nProposalHash = b.nProposalHash ∧
      a.nVote = b.nVote ∧ a.nTime = b.nTime := by
  simp only [voteDigits, List.append_assoc] at same
  obtain ⟨indexes, same⟩ := List.append_inj same index
  obtain ⟨proposals, same⟩ := List.append_inj same (by simp)
  obtain ⟨choices, times⟩ := List.append_inj same choice
  exact ⟨index_injective indexes, getHex_injective proposals,
    Int32.toInt_inj.mp (decimal_injective choices), Int64.toInt_inj.mp (decimal_injective times)⟩

theorem vote_unreplayable_iff (vote : CBudgetVote) :
    Unreplayable voteMessage voteActs vote ↔ VoteReadsOnce vote := by
  constructor
  · intro unreplayable i j cut
    obtain ⟨other, hash, digits, index, choice⟩ := vote_of_cut vote.vin.prevout.hash cut
    have alike := unreplayable other ((voteMessage_iff _ _).mpr ⟨hash, digits⟩)
    simp only [voteActs, Prod.mk.injEq] at alike
    obtain ⟨outpoints, -, choices, -⟩ := alike
    exact ⟨by rw [← index, outpoints], by rw [← choice, choices]⟩
  · intro once other same
    obtain ⟨hash, digits⟩ := (voteMessage_iff _ _).mp same
    obtain ⟨index, choice⟩ := once _ _ (digits ▸ vote_cut other)
    obtain ⟨indexes, proposals, choices, times⟩ := votes_alike digits index choice
    rw [voteActs, voteActs, outpoints_alike hash indexes, proposals, choices, times]

theorem winner_cut (winner : CMasternodePaymentWinner) :
    WinnerCut printing (winnerDigits printing winner)
      (decimal winner.vinMasternode.prevout.n.toNat).length
      (decimal winner.nBlockHeight.toInt).length winner.payee := by
  constructor
  · simp [winnerDigits]
  all_goals simp only [winnerDigits, List.append_assoc]
  · rw [List.take_left]
    exact index_reads _
  · rw [List.drop_left, List.take_left]
    exact int32_reads _
  · rw [List.drop_left, List.drop_left]

theorem winner_of_cut (hash : Uint256) {i j : Nat} {payee : CScript}
    (cut : WinnerCut printing digits i j payee) :
    ∃ winner, winner.vinMasternode.prevout.hash = hash ∧ winner.payee = payee ∧
      winnerDigits printing winner = digits ∧
      (decimal winner.vinMasternode.prevout.n.toNat).length = i ∧
      (decimal winner.nBlockHeight.toInt).length = j := by
  obtain ⟨n, index⟩ := index_of_reads cut.index
  obtain ⟨height, at_height⟩ := int32_of_reads cut.height
  have within := cut.within
  refine ⟨⟨⟨⟨hash, n⟩, [], 0⟩, height, payee, [], 0⟩, rfl, rfl, ?_, ?_, ?_⟩
  · simp only [winnerDigits, index, at_height, cut.payee, List.append_assoc,
      List.take_append_drop]
  · simp only [index, List.length_take]
    omega
  · simp only [at_height, List.length_take, List.length_drop]
    omega

theorem winnerMessage_iff (a b : CMasternodePaymentWinner) :
    winnerMessage printing a = winnerMessage printing b ↔
      a.vinMasternode.prevout.hash = b.vinMasternode.prevout.hash ∧
        winnerDigits printing a = winnerDigits printing b := by
  simp only [winnerMessage, winnerDigits, List.append_assoc]
  exact short_iff _ _ _ _

theorem winner_unreplayable_iff (winner : CMasternodePaymentWinner) :
    Unreplayable (winnerMessage printing) (winnerActs tiers) winner ↔
      WinnerReadsOnce printing winner := by
  constructor
  · intro unreplayable i j payee cut
    obtain ⟨other, hash, paid, digits, index, height⟩ :=
      winner_of_cut winner.vinMasternode.prevout.hash cut
    have alike := unreplayable other ((winnerMessage_iff _ _).mpr ⟨hash, digits⟩)
    simp only [winnerActs, Prod.mk.injEq] at alike
    obtain ⟨outpoints, heights, payees, -⟩ := alike
    exact ⟨by rw [← index, outpoints], by rw [← height, heights], by rw [← paid, payees]⟩
  · intro once other same
    obtain ⟨hash, digits⟩ := (winnerMessage_iff _ _).mp same
    obtain ⟨index, height, payees⟩ := once _ _ _ (digits ▸ winner_cut other)
    simp only [winnerDigits, List.append_assoc] at digits
    obtain ⟨indexes, rest⟩ := List.append_inj digits index
    have heights := Int32.toInt_inj.mp (decimal_injective (List.append_inj rest height).1)
    rw [winnerActs, winnerActs, outpoints_alike hash (index_injective indexes), heights, payees]

end Cuts

section Marks

variable {printing : Printing}

theorem broadcast_replayable (mnb : CMasternodeBroadcast) :
    ¬ Unreplayable (broadcastMessage printing) broadcastActs mnb := by
  intro unreplayable
  let elsewhere : COutPoint := ⟨mnb.vin.prevout.hash, mnb.vin.prevout.n + 1⟩
  have alike := unreplayable
    { mnb with vin := { mnb.vin with prevout := elsewhere } } rfl
  have same : mnb.vin.prevout.n + 1 = mnb.vin.prevout.n :=
    congrArg (fun acts => acts.1.n) alike
  simp at same

theorem decimal_unmarked {mark : Char} (sign : mark ≠ '-') (figure : mark.isDigit = false)
    (z : Int) : mark ∉ decimal z := by
  have absent (n : Nat) : mark ∉ Nat.toDigits 10 n := fun member => by
    simp [(toDigits_isNumeral n).digits mark member] at figure
  cases z with
  | ofNat n => exact absent n
  | negSucc n => simpa [decimal, sign] using absent (n + 1)

theorem getHex_unmarked {mark : Char} (figure : mark ∉ hexDigits) (hash : Uint256) :
    mark ∉ getHex hash :=
  fun member => figure ((hexText_isHex _ _).2 mark member)

theorem ping_unreplayable (mnp : CMasternodePing) :
    Unreplayable (pingMessage printing) pingActs mnp := by
  intro other same
  simp only [pingMessage, txInToString, outPointToString, List.append_assoc,
    List.append_cancel_left_eq] at same
  obtain ⟨hash, same⟩ := List.append_inj same (by simp)
  simp only [List.cons_append, List.nil_append, List.cons.injEq, true_and] at same
  -- The first parenthesis closes the outpoint, the last one the input.
  obtain ⟨index, same⟩ := first_mark ')' (decimal_unmarked (by decide) (by decide) _)
    (decimal_unmarked (by decide) (by decide) _) same
  have closed (ping : CMasternodePing) : ')' ∉ getHex ping.blockHash ++ decimal ping.sigTime.toInt := by
    simp [getHex_unmarked (show ')' ∉ hexDigits by decide),
      decimal_unmarked (show ')' ≠ '-' by decide) (by decide)]
  simp only [← List.append_assoc] at same
  obtain ⟨-, tail⟩ := last_mark ')' (closed _) (closed _) same
  obtain ⟨blocks, times⟩ := List.append_inj tail (by simp)
  rw [pingActs, pingActs, outpoints_alike (getHex_injective hash) (index_injective index),
    getHex_injective blocks, Int64.toInt_inj.mp (decimal_injective times)]

end Marks

section Messages

def SignedMessage.ReadsOnce (printing : Printing) : SignedMessage → Prop
  | .vote cast => VoteReadsOnce cast
  | .winner elected => WinnerReadsOnce printing elected
  | .broadcast _ => False
  | .ping _ => True

/-- A text fixes what the handlers act on just where it can be cut in one way. -/
theorem signsAll_iff (printing : Printing) (tiers : CScript → UInt32) (message : SignedMessage) :
    message.SignsAll printing tiers ↔ message.ReadsOnce printing := by
  cases message with
  | vote cast => exact vote_unreplayable_iff cast
  | winner elected => exact winner_unreplayable_iff elected
  | broadcast mnb => exact iff_of_false (broadcast_replayable mnb) not_false
  | ping mnp => exact iff_of_true (ping_unreplayable mnp) trivial

def assent : CBudgetVote :=
  ⟨true, true, ⟨⟨0xabc, 0⟩, [], 0xffffffff⟩, 0xdef, 1, 1540000000, []⟩

theorem assent_replayed : ¬ Unreplayable voteMessage voteActs assent := by
  intro unreplayable
  have digits : decimal 11 ++ decimal 540000000 = decimal 1 ++ decimal 1540000000 := by
    decide
  have text : voteMessage { assent with nVote := 11, nTime := 540000000 } =
      voteMessage assent := by
    simp only [voteMessage, assent, List.append_assoc, List.append_cancel_left_eq]
    exact digits
  exact absurd (unreplayable _ text) (by decide)

end Messages

end OxidSignedTexts
