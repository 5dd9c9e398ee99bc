import Cascoin.Models.BeeNFT.Codec

/-!
# Generic NFT encoders and parsers

`CreateGenericNFTScript` and `CreateGenericNFTTransferScript` build a payload:
the magic, a count byte and the items, every string after a one-byte length.
The wallet RPCs push that payload after `OP_RETURN` with `CScript::operator<<`;
`ParseGenericNFTTransaction` and `ParseGenericNFTTransferTransaction` read it
from byte 2 of the output script, as if the push header were always one byte.

The two parsers are one loop over the outputs, `parseGenericTransaction`, each
with its own magic, error texts and item reader; the items are read from a
position by `readItems`, their fields by `readField` and `readAmount`.

A payload below 76 bytes is pushed directly and parses back to exactly the
items written (`parseGenericOutput_direct`). A longer payload is pushed with
`OP_PUSHDATA1`, `2` or `4`; its magic then starts one or three bytes late and
the output is passed over (`parseGenericOutput_long`).
-/

namespace Cascoin

open Checked

/-- `GenericNFT`. -/
structure GenericNFT where
  name : List UInt8
  description : List UInt8
  metadata : List UInt8
  /-- An `int64_t`. -/
  amount : Int
  ownerAddress : List UInt8
  deriving DecidableEq

/-- `GenericNFTTransfer`. -/
structure GenericNFTTransfer where
  nftTxid : List UInt8
  recipientAddress : List UInt8
  /-- An `int64_t`. -/
  amount : Int
  deriving DecidableEq

/-! ## The encoders -/

/-- A string after `push_back(s.length())`: its length truncated to one byte. -/
def lengthPrefixed (s : List UInt8) : List UInt8 := UInt8.ofNat s.length :: s

/-- The payload both encoders build: the magic, `push_back(size())` and the items. -/
def createGenericScript {α : Type} (magic : List UInt8) (itemBytes : α → List UInt8)
    (items : List α) : List UInt8 :=
  magic ++ UInt8.ofNat items.length :: items.flatMap itemBytes

/-- The bytes of one NFT. The amount is written by `(amount >> (i * 8)) & 0xFF`
for `i < 8`: the bytes of its two's complement, least significant first. -/
def genericNFTBytes (nft : GenericNFT) : List UInt8 :=
  lengthPrefixed nft.name ++ lengthPrefixed nft.description ++ lengthPrefixed nft.metadata ++
    WriteLE64 nft.amount ++ lengthPrefixed nft.ownerAddress

/-- The bytes of one transfer. -/
def genericNFTTransferBytes (transfer : GenericNFTTransfer) : List UInt8 :=
  lengthPrefixed transfer.nftTxid ++ lengthPrefixed transfer.recipientAddress ++
    WriteLE64 transfer.amount

/-- `CreateGenericNFTScript`. -/
def CreateGenericNFTScript (nfts : List GenericNFT) : List UInt8 :=
  createGenericScript magicCASNFT genericNFTBytes nfts

/-- `CreateGenericNFTTransferScript`. -/
def CreateGenericNFTTransferScript (transfers : List GenericNFTTransfer) : List UInt8 :=
  createGenericScript magicCASGEN genericNFTTransferBytes transfers

/-! ## The parsers -/

/-- One string field at `pos`: its length byte, rejected with `missing` when the
data ends before it, then the string, rejected with `lengthError` when it runs
past the end. Returns the string and the position after it. -/
def readField (data : List UInt8) (pos : Nat) (missing lengthError : String) :
    NFTCheck (List UInt8 × Nat) := do
  if data.length ≤ pos then Checked.reject (some missing)
  let len := (← Checked.get data pos).toNat
  if data.length < pos + 1 + len then Checked.reject (some lengthError)
  return (← Checked.slice data (pos + 1) (pos + 1 + len), pos + 1 + len)

/-- The eight amount bytes at `pos`, `amount |= (int64_t)data[pos + j] << (j * 8)`. -/
def readAmount (data : List UInt8) (pos : Nat) (lengthError : String) : NFTCheck (Int × Nat) := do
  if data.length < pos + 8 then Checked.reject (some lengthError)
  return (← readLE64Amount data pos, pos + 8)

/-- The body of the item loop of `ParseGenericNFTTransaction`. -/
def readGenericNFT (data : List UInt8) (pos : Nat) : NFTCheck (GenericNFT × Nat) := do
  let (name, pos) ← readField data pos "Invalid generic NFT data: incomplete NFT"
    "Invalid generic NFT data: name length error"
  let (description, pos) ← readField data pos
    "Invalid generic NFT data: missing description length"
    "Invalid generic NFT data: description length error"
  let (metadata, pos) ← readField data pos "Invalid generic NFT data: missing metadata length"
    "Invalid generic NFT data: metadata length error"
  let (amount, pos) ← readAmount data pos "Invalid generic NFT data: amount length error"
  let (owner, pos) ← readField data pos
    "Invalid generic NFT data: missing owner address length"
    "Invalid generic NFT data: owner address length error"
  return (⟨name, description, metadata, amount, owner⟩, pos)

/-- The body of the item loop of `ParseGenericNFTTransferTransaction`. -/
def readGenericNFTTransfer (data : List UInt8) (pos : Nat) :
    NFTCheck (GenericNFTTransfer × Nat) := do
  let (nftTxid, pos) ← readField data pos
    "Invalid generic NFT transfer data: incomplete transfer"
    "Invalid generic NFT transfer data: TXID length error"
  let (recipient, pos) ← readField data pos
    "Invalid generic NFT transfer data: missing recipient length"
    "Invalid generic NFT transfer data: recipient length error"
  let (amount, pos) ← readAmount data pos "Invalid generic NFT transfer data: amount length error"
  return (⟨nftTxid, recipient, amount⟩, pos)

/-- The item loop `for (int i = 0; i < count; i++)`, reading from `pos` on. -/
def readItems {α : Type} (readItem : List UInt8 → Nat → NFTCheck (α × Nat))
    (data : List UInt8) : Nat → Nat → NFTCheck (List α)
  | 0, _ => pure []
  | count + 1, pos => do
    let (item, pos) ← readItem data pos
    return item :: (← readItems readItem data count pos)

/-- The body of the output loop of both parsers: the items of an `OP_RETURN`
output whose bytes 2..7 spell `magic`, `none` to go on. -/
def parseGenericOutput {α : Type} (magic : List UInt8) (missingCount : String)
    (readItem : List UInt8 → Nat → NFTCheck (α × Nat)) (output : CTxOut) :
    NFTCheck (Option (List α)) := do
  let spk := output.scriptPubKey
  if (← Checked.get spk 0) = OP_RETURN then
    let data ← Checked.suffix spk 2
    if 6 ≤ data.length then
      if data.take 6 = magic then
        if data.length ≤ 6 then Checked.reject (some missingCount)
        let count := (← Checked.get data 6).toNat
        return some (← readItems readItem data count 7)
  return none

/-- The output loop of both parsers: the items of the first output with the magic. -/
def parseGenericTransaction {α : Type} (magic : List UInt8) (missingCount notFound : String)
    (readItem : List UInt8 → Nat → NFTCheck (α × Nat)) (tx : CTransaction) :
    NFTCheck (List α) := do
  match ← tx.vout.findSomeM? (parseGenericOutput magic missingCount readItem) with
  | some items => return items
  | none => Checked.reject (some notFound)

/-- `ParseGenericNFTTransaction`. -/
def ParseGenericNFTTransaction (tx : CTransaction) : NFTCheck (List GenericNFT) :=
  parseGenericTransaction magicCASNFT "Invalid generic NFT data: missing NFT count"
    "No generic NFT data found" readGenericNFT tx

/-- `ParseGenericNFTTransferTransaction`. -/
def ParseGenericNFTTransferTransaction (tx : CTransaction) :
    NFTCheck (List GenericNFTTransfer) :=
  parseGenericTransaction magicCASGEN "Invalid generic NFT transfer data: missing transfer count"
    "No generic NFT transfer data found" readGenericNFTTransfer tx

/-! ## Reading back what was written

Each reader is specified on data whose part from its position on starts with
the bytes the matching writer produced; the position it returns is just past
them, so the next reader's hypothesis follows by `drop_of_drop_eq_append`. -/

section Readers

variable {data rest : List UInt8} {pos : Nat}

/-- The part of the data after a field written at `pos`. -/
theorem drop_of_drop_eq_append {a : List UInt8} (h : data.drop pos = a ++ rest) :
    data.drop (pos + a.length) = rest := by
  rw [← List.drop_drop, h, List.drop_left]

theorem readField_of_drop_eq {s : List UInt8} (hs : s.length < 256) (missing lengthError : String)
    (h : data.drop pos = lengthPrefixed s ++ rest) :
    readField data pos missing lengthError = .ok (s, pos + (lengthPrefixed s).length) := by
  have hlen : data.length - pos = 1 + s.length + rest.length := by
    have := congrArg List.length h
    simp [lengthPrefixed] at this
    omega
  have hbyte : (UInt8.ofNat s.length).toNat = s.length := by simp; omega
  have hget : (get data pos : NFTCheck UInt8) = .ok (UInt8.ofNat s.length) :=
    get_of_drop_eq (by simpa [lengthPrefixed] using h)
  have hdrop : data.drop (pos + 1) = s ++ rest := by
    rw [← List.drop_drop, h]
    simp [lengthPrefixed]
  have hslice : (slice data (pos + 1) (pos + 1 + s.length) : NFTCheck _) = .ok s :=
    slice_of_drop_eq (by omega) hdrop
  unfold readField
  simp only [hget, hbyte, hslice, ok_bind]
  simp (disch := omega) only [if_neg, pure_eq, lengthPrefixed, List.length_cons]
  congr 2
  omega

theorem readAmount_of_drop_eq {x : Int} (hlo : -2 ^ 63 ≤ x) (hhi : x < 2 ^ 63)
    (lengthError : String) (h : data.drop pos = WriteLE64 x ++ rest) :
    readAmount data pos lengthError = .ok (x, pos + (WriteLE64 x).length) := by
  have hlen : data.length - pos = 8 + rest.length := by simpa using congrArg List.length h
  unfold readAmount
  simp (disch := omega) only [if_neg, readLE64Amount_of_drop_eq hlo hhi h, ok_bind, pure_eq,
    length_WriteLE64]

theorem readGenericNFT_of_drop_eq {nft : GenericNFT} (hname : nft.name.length < 256)
    (hdescription : nft.description.length < 256) (hmetadata : nft.metadata.length < 256)
    (howner : nft.ownerAddress.length < 256) (hlo : -2 ^ 63 ≤ nft.amount)
    (hhi : nft.amount < 2 ^ 63) (h : data.drop pos = genericNFTBytes nft ++ rest) :
    readGenericNFT data pos = .ok (nft, pos + (genericNFTBytes nft).length) := by
  simp only [genericNFTBytes, List.append_assoc] at h
  -- the five fields, each starting where the one before ends
  have h2 := drop_of_drop_eq_append h
  have h3 := drop_of_drop_eq_append h2
  have h4 := drop_of_drop_eq_append h3
  have h5 := drop_of_drop_eq_append h4
  unfold readGenericNFT
  simp only [readField_of_drop_eq hname _ _ h, readField_of_drop_eq hdescription _ _ h2,
    readField_of_drop_eq hmetadata _ _ h3, readAmount_of_drop_eq hlo hhi _ h4,
    readField_of_drop_eq howner _ _ h5, ok_bind, pure_eq]
  simp [genericNFTBytes]
  omega

theorem readGenericNFTTransfer_of_drop_eq {transfer : GenericNFTTransfer}
    (htxid : transfer.nftTxid.length < 256) (hrecipient : transfer.recipientAddress.length < 256)
    (hlo : -2 ^ 63 ≤ transfer.amount) (hhi : transfer.amount < 2 ^ 63)
    (h : data.drop pos = genericNFTTransferBytes transfer ++ rest) :
    readGenericNFTTransfer data pos =
      .ok (transfer, pos + (genericNFTTransferBytes transfer).length) := by
  simp only [genericNFTTransferBytes, List.append_assoc] at h
  have h2 := drop_of_drop_eq_append h
  have h3 := drop_of_drop_eq_append h2
  unfold readGenericNFTTransfer
  simp only [readField_of_drop_eq htxid _ _ h, readField_of_drop_eq hrecipient _ _ h2,
    readAmount_of_drop_eq hlo hhi _ h3, ok_bind, pure_eq]
  simp [genericNFTTransferBytes]
  omega

/-- The item loop reads back every item written after `pos`, given that each item
reads back wherever it was written. -/
theorem readItems_of_drop_eq {α : Type} {readItem : List UInt8 → Nat → NFTCheck (α × Nat)}
    {itemBytes : α → List UInt8} {items : List α}
    (hitem : ∀ item ∈ items, ∀ pos rest, data.drop pos = itemBytes item ++ rest →
      readItem data pos = .ok (item, pos + (itemBytes item).length))
    (h : data.drop pos = items.flatMap itemBytes ++ rest) :
    readItems readItem data items.length pos = .ok items := by
  induction items generalizing pos with
  | nil => rfl
  | cons item items ih =>
    rw [List.flatMap_cons, List.append_assoc] at h
    have hnext := ih (fun i hi => hitem i (List.mem_cons_of_mem item hi)) (drop_of_drop_eq_append h)
    simp only [readItems, List.length_cons, hitem item List.mem_cons_self pos _ h, ok_bind,
      hnext, pure_eq]

end Readers

/-! ## The pushed payload -/

section Output

variable {α : Type} {magic : List UInt8} {missingCount : String}
  {readItem : List UInt8 → Nat → NFTCheck (α × Nat)} {output : CTxOut}

/-- An output that does not start with `OP_RETURN` is passed over. -/
theorem parseGenericOutput_of_head {b : UInt8} {rest : List UInt8} (hb : b ≠ OP_RETURN)
    (hout : output.scriptPubKey = b :: rest) :
    parseGenericOutput magic missingCount readItem output = .ok none := by
  unfold parseGenericOutput
  rw [hout]
  simp [hb]

/-- A payload behind a one-byte push header is read from byte 2 as written: its
items read back when each of them does and their count fits its byte. -/
theorem parseGenericOutput_direct {itemBytes : α → List UInt8} {items : List α} {b : UInt8}
    (hmagic : magic.length = 6) (hcount : items.length < 256)
    (hitem : ∀ item ∈ items, ∀ pos rest,
      (createGenericScript magic itemBytes items).drop pos = itemBytes item ++ rest →
        readItem (createGenericScript magic itemBytes items) pos =
          .ok (item, pos + (itemBytes item).length))
    (hout : output.scriptPubKey = OP_RETURN :: b :: createGenericScript magic itemBytes items) :
    parseGenericOutput magic missingCount readItem output = .ok (some items) := by
  have hdrop : (createGenericScript magic itemBytes items).drop 7 =
      items.flatMap itemBytes ++ [] := by
    simp [createGenericScript, List.drop_append, hmagic]
  have hbyte : (UInt8.ofNat items.length).toNat = items.length := by simp; omega
  have hread := readItems_of_drop_eq hitem hdrop
  unfold createGenericScript at hread
  unfold parseGenericOutput
  rw [hout]
  simp [createGenericScript, hmagic, hbyte, hread]

/-- Neither generic magic reads as itself moved by one, two or four bytes. -/
theorem generic_magic_shift (hmagic : magic = magicCASNFT ∨ magic = magicCASGEN) {k : Nat}
    (hk : k = 1 ∨ k = 2 ∨ k = 4) : magic.drop k ≠ magic.take (6 - k) := by
  rcases hmagic with rfl | rfl <;> rcases hk with rfl | rfl | rfl <;> decide

/-- A payload of 76 bytes or more gets a push header of two, three or five bytes,
so the parser's magic starts inside the header and the output is passed over. -/
theorem parseGenericOutput_long {payload : List UInt8}
    (hmagic : magic = magicCASNFT ∨ magic = magicCASGEN) (hpayload : payload.take 6 = magic)
    (hlong : 0x4c ≤ payload.length)
    (hout : output.scriptPubKey = pushData (pushOpcode [] OP_RETURN) payload) :
    parseGenericOutput magic missingCount readItem output = .ok none := by
  obtain ⟨opcode, lengthBytes, hp, hk⟩ := pushPrefix_long hlong
  have hspk : output.scriptPubKey = OP_RETURN :: opcode :: (lengthBytes ++ payload) := by
    rw [hout, pushData, pushOpcode, hp]
    simp
  have hshift : (lengthBytes ++ payload).take 6 ≠ magic := by
    intro heq
    apply generic_magic_shift hmagic hk
    have hdrop := congrArg (List.drop lengthBytes.length) heq
    rw [List.drop_take, List.drop_left] at hdrop
    rw [← hdrop, ← hpayload, List.take_take]
    congr 1
    omega
  unfold parseGenericOutput
  rw [hspk]
  simp [hshift]

end Output

/-! ## Payload lengths -/

theorem length_createGenericScript {α : Type} (magic : List UInt8) (itemBytes : α → List UInt8)
    (items : List α) :
    (createGenericScript magic itemBytes items).length =
      magic.length + 1 + (items.flatMap itemBytes).length := by
  simp only [createGenericScript, List.length_append, List.length_cons]
  omega

theorem length_le_length_flatMap {α β : Type} {f : α → List β} {l : List α}
    (h : ∀ a ∈ l, f a ≠ []) : l.length ≤ (l.flatMap f).length := by
  have hone : ∀ i ∈ l.map fun a => (f a).length, 1 ≤ i := by
    simp only [List.mem_map, forall_exists_index, and_imp, forall_apply_eq_imp_iff₂]
    exact fun a ha => List.length_pos_iff.mpr (h a ha)
  simpa using List.length_le_sum_of_one_le _ hone

theorem length_le_of_mem_flatMap {α β : Type} (f : α → List β) {l : List α} {a : α}
    (h : a ∈ l) : (f a).length ≤ (l.flatMap f).length := by
  rw [List.flatMap_def]
  exact (List.infix_of_mem_flatten (List.mem_map_of_mem h)).length_le

/-- Below 76 bytes every count and length fits its byte, so every NFT reads back. -/
theorem CreateGenericNFTScript_fits {nfts : List GenericNFT}
    (hamount : ∀ nft ∈ nfts, -2 ^ 63 ≤ nft.amount ∧ nft.amount < 2 ^ 63)
    (hshort : (CreateGenericNFTScript nfts).length < 76) :
    nfts.length < 256 ∧ ∀ nft ∈ nfts, ∀ pos rest,
      (CreateGenericNFTScript nfts).drop pos = genericNFTBytes nft ++ rest →
        readGenericNFT (CreateGenericNFTScript nfts) pos =
          .ok (nft, pos + (genericNFTBytes nft).length) := by
  have hbody : (nfts.flatMap genericNFTBytes).length < 70 := by
    rw [CreateGenericNFTScript, length_createGenericScript] at hshort
    simp only [magicCASNFT, List.length_cons, List.length_nil] at hshort
    omega
  refine ⟨?_, fun nft hmem pos rest h => ?_⟩
  · have hcount := length_le_length_flatMap (l := nfts) fun nft _ =>
      List.ne_nil_of_length_pos (by simp [genericNFTBytes] : 0 < (genericNFTBytes nft).length)
    omega
  · have hitem := length_le_of_mem_flatMap genericNFTBytes hmem
    have hlen : (genericNFTBytes nft).length = nft.name.length + nft.description.length +
        nft.metadata.length + nft.ownerAddress.length + 12 := by
      simp [genericNFTBytes, lengthPrefixed]
      omega
    exact readGenericNFT_of_drop_eq (by omega) (by omega) (by omega) (by omega)
      (hamount nft hmem).1 (hamount nft hmem).2 h

/-- Below 76 bytes every count and length fits its byte, so every transfer reads back. -/
theorem CreateGenericNFTTransferScript_fits {transfers : List GenericNFTTransfer}
    (hamount : ∀ transfer ∈ transfers, -2 ^ 63 ≤ transfer.amount ∧ transfer.amount < 2 ^ 63)
    (hshort : (CreateGenericNFTTransferScript transfers).length < 76) :
    transfers.length < 256 ∧ ∀ transfer ∈ transfers, ∀ pos rest,
      (CreateGenericNFTTransferScript transfers).drop pos =
          genericNFTTransferBytes transfer ++ rest →
        readGenericNFTTransfer (CreateGenericNFTTransferScript transfers) pos =
          .ok (transfer, pos + (genericNFTTransferBytes transfer).length) := by
  have hbody : (transfers.flatMap genericNFTTransferBytes).length < 70 := by
    rw [CreateGenericNFTTransferScript, length_createGenericScript] at hshort
    simp only [magicCASGEN, List.length_cons, List.length_nil] at hshort
    omega
  refine ⟨?_, fun transfer hmem pos rest h => ?_⟩
  · have hcount := length_le_length_flatMap (l := transfers) fun transfer _ =>
      List.ne_nil_of_length_pos
        (by simp [genericNFTTransferBytes] : 0 < (genericNFTTransferBytes transfer).length)
    omega
  · have hitem := length_le_of_mem_flatMap genericNFTTransferBytes hmem
    have hlen : (genericNFTTransferBytes transfer).length =
        transfer.nftTxid.length + transfer.recipientAddress.length + 10 := by
      simp [genericNFTTransferBytes, lengthPrefixed]
      omega
    exact readGenericNFTTransfer_of_drop_eq (by omega) (by omega)
      (hamount transfer hmem).1 (hamount transfer hmem).2 h

/-! ## The parsers on the wallet's transactions -/

/-- Both parsers on a transaction with one pushed payload among outputs that do not
start with `OP_RETURN`: the items come back exactly when the payload is below 76
bytes, and otherwise nothing is found. -/
theorem parseGenericTransaction_pushed {α : Type} {magic : List UInt8}
    (hmagic : magic = magicCASNFT ∨ magic = magicCASGEN) (missingCount notFound : String)
    (readItem : List UInt8 → Nat → NFTCheck (α × Nat)) {itemBytes : α → List UInt8}
    {items : List α} {tx : CTransaction} {pre post : List CTxOut} {out : CTxOut}
    (hvout : tx.vout = pre ++ out :: post)
    (hout : out.scriptPubKey =
      pushData (pushOpcode [] OP_RETURN) (createGenericScript magic itemBytes items))
    (hothers : ∀ o ∈ pre ++ post, ∃ b rest, o.scriptPubKey = b :: rest ∧ b ≠ OP_RETURN)
    (hfits : (createGenericScript magic itemBytes items).length < 76 →
      items.length < 256 ∧ ∀ item ∈ items, ∀ pos rest,
        (createGenericScript magic itemBytes items).drop pos = itemBytes item ++ rest →
          readItem (createGenericScript magic itemBytes items) pos =
            .ok (item, pos + (itemBytes item).length)) :
    parseGenericTransaction magic missingCount notFound readItem tx =
      if (createGenericScript magic itemBytes items).length < 76 then .ok items
      else .error (.reject (some notFound)) := by
  have hlen6 : magic.length = 6 := by rcases hmagic with rfl | rfl <;> rfl
  have hnone : ∀ o ∈ pre ++ post, parseGenericOutput magic missingCount readItem o = .ok none := by
    intro o ho
    obtain ⟨b, rest, hs, hb⟩ := hothers o ho
    exact parseGenericOutput_of_head hb hs
  unfold parseGenericTransaction
  rw [hvout, findSomeM_append_of_none fun o ho => hnone o (List.mem_append_left _ ho),
    List.findSomeM?_cons]
  split_ifs with hshort
  · -- a one-byte header: the parser reads the payload as written
    obtain ⟨hcount, hitem⟩ := hfits hshort
    have hdirect : out.scriptPubKey = OP_RETURN ::
        UInt8.ofNat (createGenericScript magic itemBytes items).length ::
          createGenericScript magic itemBytes items := by
      rw [hout, pushData, pushOpcode, pushPrefix_of_lt hshort]
      simp
    rw [parseGenericOutput_direct hlen6 hcount hitem hdirect]
    rfl
  · -- a longer header: the output is passed over, and so is every later one
    have hpayload : (createGenericScript magic itemBytes items).take 6 = magic := by
      simp [createGenericScript, hlen6]
    rw [parseGenericOutput_long hmagic hpayload (by omega) hout, ok_bind, ← List.append_nil post,
      findSomeM_append_of_none fun o ho => hnone o (List.mem_append_right _ ho)]
    rfl

/-- The generic NFT and transfer scripts the wallet pushes after `OP_RETURN` parse
back to exactly what was written when the payload is below 76 bytes, and are
not found at all otherwise. -/
theorem ParseGenericNFTTransaction_CreateGenericNFTScript :
    (∀ (nfts : List GenericNFT) (tx : CTransaction) (pre post : List CTxOut) (out : CTxOut),
      tx.vout = pre ++ out :: post →
      out.scriptPubKey = pushData (pushOpcode [] OP_RETURN) (CreateGenericNFTScript nfts) →
      (∀ o ∈ pre ++ post, ∃ b rest, o.scriptPubKey = b :: rest ∧ b ≠ OP_RETURN) →
      (∀ nft ∈ nfts, -2 ^ 63 ≤ nft.amount ∧ nft.amount < 2 ^ 63) →
      ParseGenericNFTTransaction tx =
        if (CreateGenericNFTScript nfts).length < 76 then .ok nfts
        else .error (.reject (some "No generic NFT data found"))) ∧
    (∀ (transfers : List GenericNFTTransfer) (tx : CTransaction) (pre post : List CTxOut)
      (out : CTxOut),
      tx.vout = pre ++ out :: post →
      out.scriptPubKey =
        pushData (pushOpcode [] OP_RETURN) (CreateGenericNFTTransferScript transfers) →
      (∀ o ∈ pre ++ post, ∃ b rest, o.scriptPubKey = b :: rest ∧ b ≠ OP_RETURN) →
      (∀ transfer ∈ transfers, -2 ^ 63 ≤ transfer.amount ∧ transfer.amount < 2 ^ 63) →
      ParseGenericNFTTransferTransaction tx =
        if (CreateGenericNFTTransferScript transfers).length < 76 then .ok transfers
        else .error (.reject (some "No generic NFT transfer data found"))) := by
  constructor
  · intro nfts tx pre post out hvout hout hothers hamount
    exact parseGenericTransaction_pushed (.inl rfl) _ _ _ hvout hout hothers
      (CreateGenericNFTScript_fits hamount)
  · intro transfers tx pre post out hvout hout hothers hamount
    exact parseGenericTransaction_pushed (.inr rfl) _ _ _ hvout hout hothers
      (CreateGenericNFTTransferScript_fits hamount)

/-- `nftcreate` with a one-letter name and a 34-character owner address parses back;
`nfttransfer` of a 64-character transaction id is never found. -/
theorem ParseGenericNFTTransaction_CreateGenericNFTScript_wallet :
    ParseGenericNFTTransaction ⟨[], [⟨0, pushData (pushOpcode [] OP_RETURN)
        (CreateGenericNFTScript [⟨[0x41], [], [], 1000, List.replicate 34 0x43⟩])⟩,
      ⟨546, [0x76, 0xa9, 0x14] ++ List.replicate 20 0 ++ [0x88, 0xac]⟩]⟩ =
        .ok [⟨[0x41], [], [], 1000, List.replicate 34 0x43⟩] ∧
    ParseGenericNFTTransferTransaction ⟨[], [⟨0, pushData (pushOpcode [] OP_RETURN)
        (CreateGenericNFTTransferScript [⟨List.replicate 64 0x61, List.replicate 34 0x43, 1⟩])⟩,
      ⟨546, [0x76, 0xa9, 0x14] ++ List.replicate 20 0 ++ [0x88, 0xac]⟩]⟩ =
        .error (.reject (some "No generic NFT transfer data found")) := by
  have hchange : ∀ o ∈ ([] : List CTxOut) ++
      [⟨546, [0x76, 0xa9, 0x14] ++ List.replicate 20 0 ++ [0x88, 0xac]⟩],
      ∃ b rest, o.scriptPubKey = b :: rest ∧ b ≠ OP_RETURN := by
    intro o ho
    rw [List.nil_append, List.mem_singleton] at ho
    subst ho
    exact ⟨_, _, rfl, by decide⟩
  constructor
  · rw [ParseGenericNFTTransaction_CreateGenericNFTScript.1 _ _ [] _ _ rfl rfl hchange
      (by simp), if_pos (by decide)]
  · rw [ParseGenericNFTTransaction_CreateGenericNFTScript.2 _ _ [] _ _ rfl rfl hchange
      (by simp), if_neg (by decide)]

end Cascoin
