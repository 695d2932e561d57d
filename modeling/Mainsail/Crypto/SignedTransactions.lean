import Mainsail.Crypto.Transactions
import Mainsail.Foundation.Hex

/-!
# Signed transactions on the wire

What `Serializer.serialize` is given: a data object that passed the schema `transactionSigned`.
Its `data` and second signature are texts here, because the schema does not make them the
digits of bytes: the keyword `bytecode` admits any number of digits in either case, and
`alphanumeric` letters that are no digits. The other texts are lower-case digits, or an address,
which is compared up to case; they stay bytes. The bytes are read back as lower-case digits.
-/

namespace Mainsail

open Endian Double TransactionConfiguration TransactionFactory List Except Option

/-- `Contracts.Crypto.TransactionSerializable`, with two of its texts. -/
@[ext] structure TransactionText where
  network : Double
  /-- The field `to`. -/
  recipient : Option Bytes
  value : Nat
  gasPrice : Double
  gasLimit : Double
  nonce : Nat
  /-- What follows `0x`. -/
  data : List Char
  v : Double
  r : Bytes
  s : Bytes
  legacySecondSignature : Option (List Char)
  deriving DecidableEq, Repr

namespace TransactionText

variable (viem : Viem)

/-- The bytes that are written. -/
def toSerializable (text : TransactionText) : TransactionSerializable :=
  { text with
    data := viem.toBytes text.data
    legacySecondSignature := text.legacySecondSignature.map viem.toBytes }

/-- The texts that are read. -/
def ofSerializable (transaction : TransactionSerializable) : TransactionText :=
  { transaction with
    data := viem.bytesToHex transaction.data
    legacySecondSignature := transaction.legacySecondSignature.map viem.bytesToHex }

def serialize (text : TransactionText) : Except TransactionError Bytes :=
  TransactionSerializer.serialize viem (text.toSerializable viem)

def deserialize (serialized : Bytes) : Except TransactionError TransactionText := do
  let transaction ← TransactionDeserializer.deserialize serialized
  return ofSerializable viem transaction

end TransactionText

/-! ## The signed schema -/

/-- `buffer.constants.MAX_STRING_LENGTH`. -/
def maxStringLength : Nat := 2 ^ 29 - 24

/-- A data object with the fields that the schema checks where they are present. -/
structure SignedTransaction extends TransactionText where
  hash : Option Bytes
  sender : Option Bytes
  senderPublicKey : Option Bytes
  fits : data.length ≤ maxStringLength

namespace TransactionConfiguration

variable (configuration : TransactionConfiguration)

/-- The keyword `transactionGasPrice`. Without a hash nothing is looked up. -/
def signedGasPrice (hash : Option Bytes) (gasPrice : Double) : Bool :=
  match hash with
  | some hash => configuration.transactionGasPrice hash gasPrice
  | none => { configuration with genesisTransactions := [] }.transactionGasPrice [] gasPrice

/-- The keyword `bytecode` of a text that starts with `0x`. -/
def bytecodeText (text : List Char) : Bool :=
  configuration.maximumGasLimit % 16 = 0 ∧ text.length ≤ configuration.maximumGasLimit / 16 ∧
    text.all fun c => (Hex.value c).isSome

/-- The schema `alphanumeric`. -/
def alphanumeric (text : List Char) : Bool :=
  text.all fun c => ('a' ≤ c ∧ c ≤ 'z') ∨ ('0' ≤ c ∧ c ≤ '9')

/-- `transactionSigned`. -/
def transactionSigned (transaction : SignedTransaction) : Bool :=
  (∀ hash ∈ transaction.hash, hash.length = hashSize) ∧ configuration.network transaction.network ∧
    (∀ recipient ∈ transaction.recipient, recipient.length = addressSize) ∧
    bigInt transaction.value ∧ configuration.transactionGasLimit transaction.gasLimit ∧
    configuration.signedGasPrice transaction.hash transaction.gasPrice ∧
    bigInt transaction.nonce ∧ configuration.bytecodeText transaction.data ∧
    (∀ sender ∈ transaction.sender, sender.length = addressSize) ∧
    (∀ publicKey ∈ transaction.senderPublicKey, publicKey.length = publicKeySize) ∧
    (transaction.v = .finite 0 ∨ transaction.v = .finite 1) ∧
    transaction.r.length = 32 ∧ transaction.s.length = 32 ∧
    (∀ signature ∈ transaction.legacySecondSignature,
      signature.length = 130 ∧ alphanumeric signature)

end TransactionConfiguration

/-! ## Bytes that are read back -/

/-- `Number.isSafeInteger`, and not negative. -/
def Safe (z : Int) : Prop := 0 ≤ z ∧ z ≤ maxSafeInteger

instance (z : Int) : Decidable (Safe z) := inferInstanceAs (Decidable (_ ∧ _))

variable {viem : Viem}

namespace TransactionSerializer

variable {z chainId bit : Int} {bytes : Bytes}

open TransactionDeserializer (toBytesCompat_eq_ok)

theorem toBytesCompat_of_safe (h : Safe z) :
    toBytesCompat viem (.finite z) = .ok (minimal z.toNat) := by
  obtain ⟨nonneg, small⟩ := h
  lift z to Nat using nonneg
  exact toBytesCompat_eq_ok.mpr ⟨z, rfl, by exact_mod_cast small, rfl⟩

theorem safe_of_toBytesCompat {x : Double} (h : toBytesCompat viem x = .ok bytes) :
    ∃ z, x = .finite z ∧ Safe z := by
  obtain ⟨n, rfl, small, -⟩ := toBytesCompat_eq_ok.mp h
  exact ⟨n, rfl, Int.natCast_nonneg n, by exact_mod_cast small⟩

variable (isBit : bit = 0 ∨ bit = 1)
include isBit

theorem shifted_eq (h : Safe (2 * chainId + 35 + bit)) :
    finite chainId * 2 + 35 = .finite (chainId * 2 + 35) := by
  obtain ⟨nonneg, small⟩ := h
  unfold maxSafeInteger at small
  have doubled : finite chainId * 2 = .finite (chainId * 2) :=
    (finite_mul chainId 2).trans (ofInt_of_le (by omega))
  rw [doubled]
  exact (finite_add (chainId * 2) 35).trans (ofInt_of_le (by omega))

/-- The chain id is folded into `v` without rounding. -/
theorem foldV_eq (h : Safe (2 * chainId + 35 + bit)) :
    finite chainId * 2 + 35 + .finite bit = .finite (2 * chainId + 35 + bit) := by
  rw [shifted_eq isBit h, finite_add, ofInt_of_le]
  · congr 1
    ring
  · obtain ⟨nonneg, small⟩ := h
    unfold maxSafeInteger at small
    omega

theorem safe_foldV (h : toBytesCompat viem (finite chainId * 2 + 35 + .finite bit) = .ok bytes) :
    Safe (2 * chainId + 35 + bit) := by
  obtain ⟨z, sum, safe⟩ := safe_of_toBytesCompat h
  obtain ⟨nonneg, small⟩ := safe
  unfold maxSafeInteger at small
  obtain ⟨a, b, shifted, second, total⟩ := eq_of_add sum (by omega)
  obtain rfl := finite.inj second
  obtain ⟨c, d, doubled, constant, total'⟩ := eq_of_add shifted (by omega)
  obtain rfl : 35 = d := finite.inj constant
  have exact' : chainId * 2 = c := eq_of_ofInt doubled (by omega)
  unfold Safe maxSafeInteger
  omega

end TransactionSerializer

namespace TransactionDeserializer

theorem parseBigInt_minimal (n : Nat) (field : TransactionField) :
    parseBigInt (minimal n) field = .ok n := by
  rw [parseBigInt, assertCanonicalInteger, if_pos (shortest_minimal n)]
  show ok (ofBig (minimal n)) = .ok n
  rw [ofBig_minimal]

theorem parseNumber_minimal {z : Int} (h : Safe z) (field : TransactionField) :
    parseNumber (minimal z.toNat) field = .ok (.finite z) := by
  obtain ⟨nonneg, small⟩ := h
  unfold maxSafeInteger at small
  rw [parseNumber, assertCanonicalInteger, if_pos (shortest_minimal _)]
  show ok (ofInt (ofBig (minimal z.toNat))) = .ok (.finite z)
  rw [ofBig_minimal, Int.toNat_of_nonneg nonneg, ofInt_of_le (by omega)]

theorem parseAddress_getD {recipient : Option Bytes}
    (h : ∀ address ∈ recipient, address.length = addressSize) :
    parseAddress (recipient.getD []) = .ok recipient := by
  cases recipient with
  | none => rfl
  | some address =>
    have length : address.length = addressSize := h address rfl
    have nonempty : address ≠ [] := by
      rintro rfl
      cases length
    rw [getD_some, parseAddress, if_neg nonempty, if_pos length]

variable {part : Bytes}

/-- The zeros that were stripped are put back. -/
theorem parseSignaturePart_minimal (length : part.length = 32)
    (positive : 1 ≤ ofBig part) (low : ofBig part ≤ secp256k1Order - 1) (field : TransactionField) :
    parseSignaturePart (minimal (ofBig part)) field = .ok part := by
  have narrow : width (ofBig part) ≤ 32 := by
    rw [width_le_iff, ← length]
    exact ofBig_lt part
  have below : ofBig part < secp256k1Order :=
    low.trans_lt (Nat.sub_lt (by decide) Nat.one_pos)
  have padded : replicate (32 - width (ofBig part)) 0 ++ minimal (ofBig part) = part := by
    generalize padding : replicate (32 - width (ofBig part)) (0 : UInt8) ++
      minimal (ofBig part) = whole
    have size : whole.length = part.length := by
      rw [← padding, length_append, length_replicate, length_minimal, length]
      omega
    have value : ofBig whole = ofBig part := by
      rw [← padding, ofBig_append, ofBig_replicate_zero, Nat.zero_mul, Nat.zero_add, ofBig_minimal]
    rw [← big_ofBig whole, size, value, big_ofBig]
  unfold parseSignaturePart
  rw [if_neg (by rw [length_minimal]; omega), assertCanonicalInteger, if_pos (shortest_minimal _)]
  simp only [bind, Except.bind, pure, Except.pure, ofBig_minimal, length_minimal, padded]
  rw [if_neg (by omega)]

/-- The chain id and the bit are recovered from the folded `v`. -/
theorem unfoldV_eq {chainId bit : Int} (isBit : bit = 0 ∨ bit = 1)
    (h : Safe (2 * chainId + 35 + bit)) :
    (finite (2 * chainId + 35 + bit) - 35).floorHalf = .finite chainId ∧
      finite (2 * chainId + 35 + bit) - (finite chainId * 2 + 35) =
        .finite bit := by
  have base := TransactionSerializer.shifted_eq isBit h
  obtain ⟨nonneg, small⟩ := h
  unfold maxSafeInteger at small
  have shifted : finite (2 * chainId + 35 + bit) - 35 = .finite (2 * chainId + bit) := by
    refine (finite_sub (2 * chainId + 35 + bit) 35).trans ?_
    rw [ofInt_of_le (by omega)]
    congr 1
    omega
  constructor
  · rw [shifted, floorHalf]
    congr 1
    omega
  · rw [base, finite_sub, ofInt_of_le (by omega)]
    congr 1
    omega

end TransactionDeserializer

/-! ## Round trips -/

/-- The fields have the sizes that the schema demands. -/
structure TransactionSerializable.Sized (transaction : TransactionSerializable) : Prop where
  recipient : ∀ recipient ∈ transaction.recipient, recipient.length = addressSize
  value : transaction.value < 2 ^ 256
  nonce : transaction.nonce < 2 ^ 256
  data : transaction.data.length ≤ 2 ^ 28
  r : transaction.r.length = 32
  s : transaction.s.length = 32
  second : ∀ signature ∈ transaction.legacySecondSignature, signature.length = 65

/-- The numbers of a transaction are safe integers, also the chain id once it is folded. -/
structure TransactionSerializable.SafeNumbers (transaction : TransactionSerializable) : Prop where
  gasPrice : ∃ z, transaction.gasPrice = .finite z ∧ Safe z
  gasLimit : ∃ z, transaction.gasLimit = .finite z ∧ Safe z
  v : ∃ chainId bit, transaction.network = .finite chainId ∧ transaction.v = .finite bit ∧
    Safe (2 * chainId + 35 + bit)

/-- The part of a signature is at least one and below the order of the group. -/
def SignatureRange (part : Bytes) : Prop :=
  1 ≤ ofBig part ∧ ofBig part ≤ TransactionDeserializer.secp256k1Order - 1

instance (part : Bytes) : Decidable (SignatureRange part) := inferInstanceAs (Decidable (_ ∧ _))

namespace TransactionSerializer

open TransactionDeserializer

variable {transaction : TransactionSerializable}

/-- The nine fields for the numbers that stand in them. -/
def nineFields (transaction : TransactionSerializable) (gasPrice gasLimit v : Int) : List Bytes :=
  [minimal transaction.nonce, minimal gasPrice.toNat, minimal gasLimit.toNat,
    transaction.recipient.getD [], minimal transaction.value, transaction.data,
    minimal v.toNat, minimal (ofBig transaction.r),
    minimal (ofBig transaction.s)]

variable {gasPrice gasLimit chainId bit : Int}

/-- The numbers of a transaction. They are safe, also the chain id once it is folded. -/
structure Numbers (transaction : TransactionSerializable) (gasPrice gasLimit chainId bit : Int) :
    Prop where
  isPrice : transaction.gasPrice = .finite gasPrice
  isLimit : transaction.gasLimit = .finite gasLimit
  network : transaction.network = .finite chainId
  v : transaction.v = .finite bit
  isBit : bit = 0 ∨ bit = 1
  safePrice : Safe gasPrice
  safeLimit : Safe gasLimit
  safeV : Safe (2 * chainId + 35 + bit)

theorem fieldsOf_of_safe (h : Numbers transaction gasPrice gasLimit chainId bit) :
    fieldsOf viem transaction =
      .ok (nineFields transaction gasPrice gasLimit (2 * chainId + 35 + bit)) := by
  rw [fieldsOf, h.isPrice, h.isLimit, h.network, h.v, foldV_eq h.isBit h.safeV,
    toBytesCompat_of_safe h.safePrice, toBytesCompat_of_safe h.safeLimit,
    toBytesCompat_of_safe h.safeV]
  simp only [bigintCompat_eq]
  rfl

theorem safeNumbers_of_fieldsOf {nine : List Bytes}
    (isChainId : transaction.network = .finite chainId) (isV : transaction.v = .finite bit)
    (isBit : bit = 0 ∨ bit = 1) (h : fieldsOf viem transaction = .ok nine) :
    transaction.SafeNumbers := by
  obtain ⟨_, gasPrice, h⟩ := bind_eq_ok.mp h
  obtain ⟨_, gasLimit, h⟩ := bind_eq_ok.mp h
  obtain ⟨_, v, h⟩ := bind_eq_ok.mp h
  rw [isChainId, isV] at v
  exact ⟨safe_of_toBytesCompat gasPrice, safe_of_toBytesCompat gasLimit, chainId, bit, isChainId,
    isV, safe_foldV isBit v⟩

theorem width_of_safe {z : Int} (h : Safe z) : width z.toNat ≤ 65 := by
  obtain ⟨nonneg, small⟩ := h
  unfold maxSafeInteger at small
  have narrow : width z.toNat ≤ 7 := width_le_iff.mpr (by omega)
  omega

theorem width_of_lt {n : Nat} (h : n < 2 ^ 256) : width n ≤ 65 := by
  have narrow : width n ≤ 32 := width_le_iff.mpr (by omega)
  omega

theorem width_of_length {part : Bytes} (h : part.length = 32) : width (ofBig part) ≤ 65 := by
  have narrow : width (ofBig part) ≤ 32 := by
    rw [width_le_iff, ← h]
    exact ofBig_lt part
  omega

/-- One long field among few short ones: the length of the list is read. -/
theorem payload_lt (sized : transaction.Sized) {v : Int}
    (safePrice : Safe gasPrice) (safeLimit : Safe gasLimit) (safeV : Safe v) :
    ((nineFields transaction gasPrice gasLimit v ++
      transaction.legacySecondSignature.toList).flatMap Rlp.string).length < 2 ^ 31 := by
  have recipient : (transaction.recipient.getD []).length ≤ 65 := by
    cases is : transaction.recipient with
    | none => exact Nat.zero_le _
    | some address =>
      rw [getD_some, sized.recipient address is]
      decide
  have few : transaction.legacySecondSignature.toList.length ≤ 1 := by
    cases transaction.legacySecondSignature <;> simp
  have before := @Rlp.length_flatMap_string_le [minimal transaction.nonce, minimal gasPrice.toNat,
      minimal gasLimit.toNat, transaction.recipient.getD [],
      minimal transaction.value] 65 1 (by decide) (by
        simp only [forall_mem_cons, length_minimal]
        exact ⟨width_of_lt sized.nonce, width_of_safe safePrice, width_of_safe safeLimit,
          recipient, width_of_lt sized.value, by simp⟩)
  have after := @Rlp.length_flatMap_string_le [minimal v.toNat, minimal (ofBig transaction.r),
      minimal (ofBig transaction.s)] 65 1 (by decide) (by
        simp only [forall_mem_cons, length_minimal]
        exact ⟨width_of_safe safeV, width_of_length sized.r, width_of_length sized.s, by simp⟩)
  have last := @Rlp.length_flatMap_string_le transaction.legacySecondSignature.toList 65 1
    (by decide) (fun bs member => (sized.second bs (mem_toList.mp member)).le)
  have data := sized.data
  have middle : (Rlp.string transaction.data).length ≤ transaction.data.length + 1 + 4 :=
    Rlp.length_string_le (by omega)
  simp only [nineFields, flatMap_append, flatMap_cons, flatMap_nil,
    length_append, length_cons, length_nil] at before after last ⊢
  omega

section

variable (h : transaction.Sized)
include h

theorem second_ne_nil :
    ∀ signature ∈ transaction.legacySecondSignature, signature ≠ [] := by
  rintro signature member rfl
  cases h.second [] member

theorem secondSignature_of_sized :
    secondSignature transaction = transaction.legacySecondSignature.toList := by
  have nonempty := second_ne_nil h
  unfold secondSignature
  cases second : transaction.legacySecondSignature with
  | none => rfl
  | some signature => simp [nonempty signature second]

theorem legacySecondSignature_toList :
    legacySecondSignature transaction.legacySecondSignature.toList =
      transaction.legacySecondSignature := by
  have nonempty := second_ne_nil h
  cases second : transaction.legacySecondSignature with
  | none => rfl
  | some signature => simp [legacySecondSignature, nonempty signature second]

end

theorem ofFields_nineFields (sized : transaction.Sized)
    (h : Numbers transaction gasPrice gasLimit chainId bit) (r : SignatureRange transaction.r)
    (s : SignatureRange transaction.s) :
    ofFields (nineFields transaction gasPrice gasLimit (2 * chainId + 35 + bit) ++
      transaction.legacySecondSignature.toList) = .ok transaction := by
  obtain ⟨chain, rest⟩ := unfoldV_eq h.isBit h.safeV
  simp only [nineFields, cons_append, nil_append, ofFields, bind, Except.bind, pure,
    Except.pure, parseBigInt_minimal, parseNumber_minimal h.safePrice,
    parseNumber_minimal h.safeLimit, parseNumber_minimal h.safeV, parseAddress_getD sized.recipient,
    parseSignaturePart_minimal sized.r r.1 r.2, parseSignaturePart_minimal sized.s s.1 s.2, chain,
    rest, legacySecondSignature_toList sized]
  rw [← h.isPrice, ← h.isLimit, ← h.network, ← h.v]

/-- What is written is read back. -/
theorem deserialize_serialize (viem : Viem) (sized : transaction.Sized)
    (safe : transaction.SafeNumbers)
    (isBit : transaction.v = .finite 0 ∨ transaction.v = .finite 1)
    (r : SignatureRange transaction.r) (s : SignatureRange transaction.s) :
    serialize viem transaction >>= TransactionDeserializer.deserialize = .ok transaction := by
  obtain ⟨⟨gasPrice, isGasPrice, safePrice⟩, ⟨gasLimit, isGasLimit, safeLimit⟩,
    chainId, bit, isChainId, isV, safeV⟩ := safe
  replace isBit : bit = 0 ∨ bit = 1 := by
    rw [isV] at isBit
    exact isBit.imp finite.inj finite.inj
  have numbers : Numbers transaction gasPrice gasLimit chainId bit :=
    ⟨isGasPrice, isGasLimit, isChainId, isV, isBit, safePrice, safeLimit, safeV⟩
  have fields : fieldsOf viem transaction = _ := fieldsOf_of_safe numbers
  have written := serialize_of_fieldsOf fields
  rw [secondSignature_of_sized sized] at written
  have few : transaction.legacySecondSignature.toList.length ≤ 1 := by
    cases transaction.legacySecondSignature <;> simp
  have read := RlpReader.readFields_list_of_lt
    (by rw [length_append, nineFields, length_cons]; simp)
    (by rw [length_append]; exact Nat.add_le_add (show 9 ≤ 10 by decide) few)
    (payload_lt sized safePrice safeLimit safeV)
  have parsed := ofFields_nineFields sized numbers r s
  rw [written]
  show TransactionDeserializer.deserialize _ = _
  rw [TransactionDeserializer.deserialize, read]
  exact parsed

end TransactionSerializer

namespace TransactionText

variable {text : TransactionText}

theorem length_toBytes (viem : Viem) {text : List Char} (h : Hex.Canonical text) :
    text.length = 2 * (viem.toBytes text).length := by
  rw [← viem.length_bytesToHex, viem.bytesToHex_toBytes text h]

/-- The texts are the digits of bytes. -/
structure Canonical (text : TransactionText) : Prop where
  data : Hex.Canonical text.data
  second : ∀ signature ∈ text.legacySecondSignature, Hex.Canonical signature

theorem ofSerializable_toSerializable (h : text.Canonical) :
    ofSerializable viem (text.toSerializable viem) = text := by
  have second : (text.legacySecondSignature.map viem.toBytes).map viem.bytesToHex =
      text.legacySecondSignature := by
    cases is : text.legacySecondSignature with
    | none => rfl
    | some signature => exact congrArg some (viem.bytesToHex_toBytes _ (h.second signature is))
  ext1
  case data => exact viem.bytesToHex_toBytes _ h.data
  case legacySecondSignature => exact second
  all_goals rfl

theorem canonical_ofSerializable (viem : Viem) (transaction : TransactionSerializable) :
    (ofSerializable viem transaction).Canonical := by
  refine ⟨viem.canonical_bytesToHex _, ?_⟩
  intro signature member
  obtain ⟨bs, -, rfl⟩ := mem_map.mp member
  exact viem.canonical_bytesToHex bs

end TransactionText

namespace SignedTransaction

variable {configuration : TransactionConfiguration} {transaction : SignedTransaction}

/-- The two texts are lower-case digits of whole bytes, and the numbers are safe integers, also
the chain id once it is folded into `v`. -/
structure Writable (configuration : TransactionConfiguration) (transaction : SignedTransaction) :
    Prop where
  canonical : transaction.toTransactionText.Canonical
  gasPrice : ∃ z, transaction.gasPrice = .finite z ∧ Safe z
  gasLimit : ∃ z, transaction.gasLimit = .finite z ∧ Safe z
  v : ∃ bit, transaction.v = .finite bit ∧ Safe (2 * configuration.chainId + 35 + bit)

section

variable (h : configuration.transactionSigned transaction)
include h

theorem network_of_signed :
    transaction.network = .finite configuration.chainId := by
  simp only [transactionSigned, decide_eq_true_eq] at h
  exact of_decide_eq_true h.2.1

theorem bit_of_signed :
    transaction.v = .finite 0 ∨ transaction.v = .finite 1 := by
  simp only [transactionSigned, decide_eq_true_eq] at h
  exact h.2.2.2.2.2.2.2.2.2.2.1

end

open TransactionText

theorem sized_of_signed (viem : Viem) (h : configuration.transactionSigned transaction)
    (canonical : transaction.toTransactionText.Canonical) :
    (transaction.toSerializable viem).Sized := by
  simp only [transactionSigned, bigInt,
    decide_eq_true_eq] at h
  obtain ⟨-, -, recipient, value, -, -, nonce, -, -, -, -, r, s, second⟩ := h
  have fits := transaction.fits
  refine ⟨recipient, value, nonce, ?_, r, s, ?_⟩
  · show (viem.toBytes transaction.data).length ≤ 2 ^ 28
    have length := length_toBytes viem canonical.data
    unfold maxStringLength at fits
    omega
  · intro bytes member
    obtain ⟨signature, present, rfl⟩ := mem_map.mp member
    have length := length_toBytes viem (canonical.second signature present)
    have := (second signature present).1
    omega

/-- Among the data objects that the signed schema admits, exactly the writable ones are read
back from the wire as they were. -/
theorem survives_wire_iff (h : configuration.transactionSigned transaction)
    (r : SignatureRange transaction.r) (s : SignatureRange transaction.s) :
    transaction.serialize viem >>= deserialize viem = .ok transaction.toTransactionText ↔
      transaction.Writable configuration := by
  have network := network_of_signed h
  have isBit := bit_of_signed h
  constructor
  · intro same
    obtain ⟨bytes, written, same⟩ := bind_eq_ok.mp same
    obtain ⟨read, -, same⟩ := bind_eq_ok.mp same
    obtain ⟨nine, fields, -⟩ := bind_eq_ok.mp written
    have canonical := canonical_ofSerializable viem read
    rw [ok.inj same] at canonical
    obtain ⟨bit, isV, isBit⟩ : ∃ bit, transaction.v = .finite bit ∧ (bit = 0 ∨ bit = 1) := by
      obtain zero | one := isBit
      · exact ⟨0, zero, .inl rfl⟩
      · exact ⟨1, one, .inr rfl⟩
    have safe := TransactionSerializer.safeNumbers_of_fieldsOf network isV isBit fields
    obtain ⟨chainId, bit', isChainId, isV', safeV⟩ := safe.v
    obtain rfl := finite.inj (network.symm.trans isChainId)
    exact ⟨canonical, safe.gasPrice, safe.gasLimit, bit', isV', safeV⟩
  · rintro ⟨canonical, gasPrice, gasLimit, bit, isV, safeV⟩
    have sized := sized_of_signed viem h canonical
    have same := TransactionSerializer.deserialize_serialize viem sized
      ⟨gasPrice, gasLimit, _, bit, network, isV, safeV⟩ isBit r s
    obtain ⟨bytes, written, read⟩ := bind_eq_ok.mp same
    rw [serialize, written]
    show deserialize viem bytes = _
    rw [deserialize, read]
    exact congrArg ok (ofSerializable_toSerializable canonical)

/-- A call with some data on the development network. -/
def sample (data : List Char) (fits : data.length ≤ maxStringLength) : SignedTransaction where
  network := .finite 10000
  recipient := some (replicate 20 0x11)
  value := 0
  gasPrice := .finite 5000000000
  gasLimit := .finite 21000
  nonce := 1
  data := data
  v := .finite 1
  r := replicate 31 0 ++ [1]
  s := replicate 32 1
  legacySecondSignature := some (replicate 130 'a')
  hash := none
  sender := none
  senderPublicKey := none
  fits := fits

theorem survives_wire_iff_sample :
    (sample "a0bc".toList (by decide)).serialize .reference >>= deserialize .reference =
      .ok (sample "a0bc".toList (by decide)).toTransactionText := by
  have canonical : (sample "a0bc".toList (by decide)).toTransactionText.Canonical := by
    refine ⟨by decide, ?_⟩
    intro signature member
    obtain rfl := mem_some_iff.mp member
    decide +kernel
  exact (@survives_wire_iff .reference devnet (sample "a0bc".toList (by decide))
    (by decide +kernel) (by decide +kernel) (by decide +kernel)).mpr
    ⟨canonical, ⟨_, rfl, by decide⟩, ⟨_, rfl, by decide⟩, _, rfl, by decide⟩

/-- The schema admits three digits, and four are read back. -/
theorem exists_not_survives_wire :
    ∃ transaction : SignedTransaction, devnet.transactionSigned transaction ∧
      SignatureRange transaction.r ∧ SignatureRange transaction.s ∧
      transaction.data = "abc".toList ∧
      transaction.serialize .reference >>= deserialize .reference =
        .ok { transaction.toTransactionText with data := "0abc".toList } :=
  ⟨sample "abc".toList (by decide), by decide +kernel, by decide +kernel, by decide +kernel, rfl,
    by decide +kernel⟩

end SignedTransaction

end Mainsail
