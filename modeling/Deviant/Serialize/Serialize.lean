import Deviant.Data.ByteReader
import Deviant.Data.MapMerge

namespace Deviant.Serialize

open Data List Reads UInt8

/-! The variable-length layers of `serialize.h`: compact sizes, `VARINT`s, vectors and optional
values, each with the reader that inverts it. -/

inductive StreamError where
  | endOfData
  | nonCanonicalCompactSize
  | sizeTooLarge
  | tooManyInputUndoRecords
  | treeHasTooManyParents
  | nonCanonicalParent
  | rightShouldNotExist
  | parentsShouldNotBeUnempty
deriving DecidableEq

abbrev StreamReader (α : Type) := Reader StreamError α

variable {α : Type}

def maxSize : Nat := 0x02000000

def serReaddata8 : StreamReader Nat := toNat <$> takeByte .endOfData

def serReaddata (width : Nat) : StreamReader Nat := takeLittleEndian .endOfData width

theorem reads_serReaddata8 (small : value < 256) : Reads serReaddata8 [ofNat value] value := by
  have reads := (reads_takeByte StreamError.endOfData (ofNat value)).map toNat
  rwa [toNat_ofNat_of_lt' small] at reads

theorem reads_serReaddata (small : value < 256 ^ width) :
    Reads (serReaddata width) (littleEndian width value) value := by
  have reads := reads_takeLittleEndian StreamError.endOfData width value
  rwa [Nat.mod_eq_of_lt small] at reads

/-- The values of an `int`. -/
def IsInt32 (value : Int) : Prop := -2 ^ 31 ≤ value ∧ value < 2 ^ 31

def writeInt32 (value : Int) : Bytes := littleEndian 4 (value % 2 ^ 32).toNat

def readInt32 : StreamReader Int := (fun value : Nat => Int.bmod value (2 ^ 32)) <$> serReaddata 4

theorem reads_readInt32 (small : IsInt32 value) : Reads readInt32 (writeInt32 value) value := by
  obtain ⟨low, high⟩ := small
  have bits : (value % 2 ^ 32).toNat < 256 ^ 4 := by omega
  have reads := (reads_serReaddata bits).map fun value : Nat => Int.bmod value (2 ^ 32)
  have same : Int.bmod ((value % 2 ^ 32).toNat : Int) (2 ^ 32) = value := by
    rw [Int.toNat_of_nonneg (by omega), show (2 ^ 32 : Int) = ((2 ^ 32 : Nat) : Int) from rfl,
      Int.emod_bmod, Int.bmod_eq_of_le_mul_two] <;> omega
  rwa [same] at reads

/-! Compact sizes. -/

def writeCompactSize (nSize : Nat) : Bytes :=
  if nSize < 253 then [ofNat nSize]
  else if nSize ≤ 0xFFFF then 253 :: littleEndian 2 nSize
  else if nSize ≤ 0xFFFFFFFF then 254 :: littleEndian 4 nSize
  else 255 :: littleEndian 8 nSize

/-- A wide form is canonical only from `least` on. -/
def readCanonical (width least : Nat) : StreamReader Nat := do
  let nSizeRet ← serReaddata width
  if nSizeRet < least then throw .nonCanonicalCompactSize else pure nSizeRet

def readSizeForm (chSize : Nat) : StreamReader Nat :=
  if chSize < 253 then pure chSize
  else if chSize = 253 then readCanonical 2 253
  else if chSize = 254 then readCanonical 4 0x10000
  else readCanonical 8 0x100000000

def readCompactSize : StreamReader Nat := do
  let chSize ← serReaddata8
  let nSizeRet ← readSizeForm chSize
  if maxSize < nSizeRet then throw .sizeTooLarge else pure nSizeRet

theorem reads_readCanonical (small : value < 256 ^ width) (canonical : least ≤ value) :
    Reads (readCanonical width least) (littleEndian width value) value := by
  refine (reads_serReaddata small).last ?_
  rw [if_neg (Nat.not_lt.mpr canonical)]
  exact pure

theorem reads_readSizeForm (allowed : nSize < 2 ^ 64) :
    ∃ chSize < 256, ∃ form, writeCompactSize nSize = ofNat chSize :: form ∧
      Reads (readSizeForm chSize) form nSize := by
  unfold writeCompactSize
  split
  case isTrue short =>
    exact ⟨nSize, by omega, [], rfl, by simpa [readSizeForm, short] using pure⟩
  case isFalse long =>
    split
    case isTrue two => exact ⟨253, by decide, _, rfl, reads_readCanonical (by omega) (by omega)⟩
    case isFalse wide =>
      split
      case isTrue four => exact ⟨254, by decide, _, rfl, reads_readCanonical (by omega) (by omega)⟩
      case isFalse widest => exact ⟨255, by decide, _, rfl, reads_readCanonical (by omega) (by omega)⟩

theorem reads_readCompactSize (allowed : nSize ≤ maxSize) :
    Reads readCompactSize (writeCompactSize nSize) nSize := by
  have range : nSize < 2 ^ 64 := lt_of_le_of_lt allowed (by decide)
  obtain ⟨chSize, byte, form, written, reads⟩ := reads_readSizeForm range
  have ends : Reads (if maxSize < nSize then throw .sizeTooLarge else pure nSize : StreamReader Nat)
      [] nSize := by
    rw [if_neg (Nat.not_lt.mpr allowed)]
    exact pure
  rw [written]
  exact (reads_serReaddata8 byte).bind (reads.last ends)

theorem fails_tooLarge (large : maxSize < nSize) :
    Fails (if maxSize < nSize then throw .sizeTooLarge else pure nSize : StreamReader Nat) [] := by
  intro rest
  rw [if_pos large]
  exact ⟨_, rfl⟩

theorem fails_widest (large : 2 ^ 64 ≤ nSize) : Fails readCompactSize (writeCompactSize nSize) := by
  have form : writeCompactSize nSize = [ofNat 255] ++ (littleEndian 8 nSize ++ []) := by
    rw [writeCompactSize, if_neg (by omega), if_neg (by omega), if_neg (by omega), append_nil]
    rfl
  have value := reads_takeLittleEndian StreamError.endOfData 8 nSize
  rw [form]
  refine (reads_serReaddata8 (show 255 < 256 by decide)).bind_fails ?_
  by_cases canonical : 0x100000000 ≤ nSize % 256 ^ 8
  · have reads : Reads (readSizeForm 255) (littleEndian 8 nSize) (nSize % 256 ^ 8) := by
      refine value.last ?_
      rw [if_neg (by omega)]
      exact pure
    exact reads.bind_fails (fails_tooLarge (lt_of_lt_of_le (by decide) canonical))
  · have fails : Fails (readSizeForm 255) (littleEndian 8 nSize ++ []) := by
      refine value.bind_fails fun rest => ?_
      rw [if_pos (by omega)]
      exact ⟨_, rfl⟩
    exact fails.bind

theorem fails_readCompactSize (large : maxSize < nSize) :
    Fails readCompactSize (writeCompactSize nSize) := by
  by_cases range : nSize < 2 ^ 64
  · obtain ⟨chSize, byte, form, written, reads⟩ := reads_readSizeForm range
    rw [written, ← append_nil form]
    exact (reads_serReaddata8 byte).bind_fails (reads.bind_fails (fails_tooLarge large))
  · exact fails_widest (by omega)

theorem yields_readCompactSize : Yields readCompactSize (writeCompactSize nSize) nSize := by
  by_cases allowed : nSize ≤ maxSize
  · exact (reads_readCompactSize allowed).yields
  · exact (fails_readCompactSize (Nat.lt_of_not_le allowed)).yields

/-! Integers in base 128 with the most significant digit first; one is taken off every digit but
the last. -/

/-- The digits `WriteVarInt` leaves in its buffer of `room` bytes, in the order it writes them. -/
def varIntDigits : (room : Nat) → (n : Nat) → (flag : Nat) → Bytes
  | 0, _, _ => []
  | room + 1, n, flag =>
    (if n ≤ 0x7F then [] else varIntDigits room (n / 128 - 1) 0x80) ++ [ofNat (n % 128 + flag)]

def writeVarInt (bits n : Nat) : Bytes := varIntDigits ((bits + 6) / 7) n 0

/-- The loop of `ReadVarInt` over an unsigned type of the given number of bits. -/
def readVarIntFrom (bits : Nat) (n : Nat) : Bytes → Except StreamError (Nat × Bytes)
  | [] => .error .endOfData
  | chData :: rest =>
    let digits := (n * 128 + chData.toNat % 128) % 2 ^ bits
    if chData.toNat < 128 then .ok (digits, rest)
      else readVarIntFrom bits ((digits + 1) % 2 ^ bits) rest

def readVarInt (bits : Nat) : StreamReader Nat := readVarIntFrom bits 0

variable {read : StreamReader α} {write : α → Bytes} (rest : Bytes)

theorem readVarIntFrom_more (small : n + 1 < 2 ^ bits) :
    readVarIntFrom bits (n / 128) (ofNat (n % 128 + 0x80) :: rest) = readVarIntFrom bits
      (n + 1) rest := by
  have byte : n % 128 + 128 < 256 := by omega
  have digits : (n / 128 * 128 + (n % 128 + 128) % 128) % 2 ^ bits = n := by
    rw [Nat.mod_eq_of_lt] <;> omega
  rw [readVarIntFrom, toNat_ofNat_of_lt' byte]
  simp only [digits, Nat.mod_eq_of_lt small]
  rw [if_neg (by omega)]

theorem readVarIntFrom_last (small : n < 2 ^ bits) :
    readVarIntFrom bits (n / 128) (ofNat (n % 128 + 0) :: rest) = .ok (n, rest) := by
  have byte : n % 128 + 0 < 256 := by omega
  have digits : (n / 128 * 128 + (n % 128 + 0) % 128) % 2 ^ bits = n := by
    rw [Nat.mod_eq_of_lt] <;> omega
  rw [readVarIntFrom, toNat_ofNat_of_lt' byte]
  simp only [digits]
  rw [if_pos (by omega)]

theorem readVarIntFrom_digits (small : n < 2 ^ bits) (enough : n < 128 ^ (room + 1)) :
    readVarIntFrom bits 0 (varIntDigits (room + 1) n flag ++ rest) =
      readVarIntFrom bits (n / 128) (ofNat (n % 128 + flag) :: rest) := by
  induction room generalizing n flag rest with
  | zero =>
    have short : n ≤ 0x7F := by omega
    rw [varIntDigits, if_pos short, Nat.div_eq_of_lt (by omega)]
    rfl
  | succ room ih =>
    rw [varIntDigits]
    split
    case isTrue short =>
      rw [Nat.div_eq_of_lt (by omega)]
      rfl
    case isFalse long =>
      have fewer : n / 128 - 1 < 128 ^ (room + 1) := by
        omega
      have positive : n / 128 - 1 + 1 = n / 128 := by omega
      rw [append_assoc, ih _ (by omega) fewer, readVarIntFrom_more _ (by omega), positive]
      rfl

theorem reads_readVarInt (wide : 0 < bits) (small : n < 2 ^ bits) :
    Reads (readVarInt bits) (writeVarInt bits n) n := by
  intro rest
  obtain ⟨room, size⟩ : ∃ room, (bits + 6) / 7 = room + 1 := ⟨(bits + 6) / 7 - 1, by omega⟩
  have enough : n < 128 ^ (room + 1) := by
    calc n < 2 ^ bits := small
      _ ≤ 2 ^ (7 * (room + 1)) := Nat.pow_le_pow_right (by decide) (by omega)
      _ = 128 ^ (room + 1) := by rw [pow_mul]; rfl
  unfold writeVarInt
  rw [size]
  exact (readVarIntFrom_digits rest small enough).trans (readVarIntFrom_last rest small)

/-! Vectors and optional values. -/

def writeByteVector (bytes : Bytes) : Bytes := writeCompactSize bytes.length ++ bytes

def readByteVector : StreamReader Bytes := do
  let nSize ← readCompactSize
  takeBytes .endOfData nSize

theorem yields_readByteVector : Yields readByteVector (writeByteVector bytes) bytes :=
  yields_readCompactSize.bind (reads_takeBytes rfl).yields

def writeVector (write : α → Bytes) (values : List α) : Bytes :=
  writeCompactSize values.length ++ values.flatMap write

def readVector (read : StreamReader α) : StreamReader (List α) := do
  let nSize ← readCompactSize
  takeMany read nSize

theorem reads_readVector {values : List α} (allowed : values.length ≤ maxSize)
    (reads : ∀ value ∈ values, Reads read (write value) value) :
    Reads (readVector read) (writeVector write values) values :=
  (reads_readCompactSize allowed).bind (reads_takeMany reads)

theorem yields_readVector {values : List α}
    (yields : ∀ value ∈ values, Yields read (write value) value) :
    Yields (readVector read) (writeVector write values) values :=
  yields_readCompactSize.bind (yields_takeMany yields)

def writeUint256 (h : BitVec 256) : Bytes := littleEndian 32 h.toNat

def readUint256 : StreamReader (BitVec 256) := BitVec.ofNat 256 <$> serReaddata 32

theorem reads_readUint256 (h : BitVec 256) : Reads readUint256 (writeUint256 h) h := by
  have value := (reads_serReaddata (show h.toNat < 256 ^ 32 from h.isLt)).map (BitVec.ofNat 256)
  rwa [BitVec.ofNat_toNat, BitVec.setWidth_eq] at value

def writeOptional (write : α → Bytes) : Option α → Bytes
  | none => [0]
  | some value => 1 :: write value

def readOptional (read : StreamReader α) : StreamReader (Option α) := do
  let discriminant ← serReaddata8
  if discriminant = 0 then pure none else some <$> read

theorem reads_readOptional {value : Option α}
    (reads : ∀ content ∈ value, Reads read (write content) content) :
    Reads (readOptional read) (writeOptional write value) value := by
  cases value with
  | none => exact last (reads_serReaddata8 (show 0 < 256 by decide)) pure
  | some content =>
    have inner := (reads content rfl).map some
    exact bind (reads_serReaddata8 (show 1 < 256 by decide)) inner

/-! Maps: the entries in the order of their keys.  Reading inserts them one by one into an empty
map and keeps an entry whose key comes again. -/

section Maps

variable {κ β : Type} [DecidableEq κ]

def insertAbsent (table : Table κ β) (entry : Sigma fun _ : κ => β) : Table κ β :=
  if (table.lookup entry.1).isSome then table else table.insert entry.1 entry.2

def writeMap (le : κ → κ → Bool) (writeKey : κ → Bytes) (writeValue : κ → β → Bytes)
    (table : Table κ β) : Bytes :=
  writeVector (fun entry => writeKey entry.1 ++ writeValue entry.1 entry.2)
    (table.entries.mergeSort fun first second => le first.1 second.1)

def readEntry (readKey : StreamReader κ) (readValue : StreamReader β) :
    StreamReader (Sigma fun _ : κ => β) := do
  let key ← readKey
  let value ← readValue
  pure ⟨key, value⟩

def readMap (readKey : StreamReader κ) (readValue : StreamReader β) : StreamReader (Table κ β) := do
  let entries ← readVector (readEntry readKey readValue)
  pure (entries.foldl insertAbsent ∅)

theorem entries_foldl_insertAbsent {entries : List (Sigma fun _ : κ => β)} {table : Table κ β}
    (distinct : (table.entries ++ entries).NodupKeys) :
    (entries.foldl insertAbsent table).entries.Perm (table.entries ++ entries) := by
  induction entries generalizing table with
  | nil => simp
  | cons entry entries ih =>
    have moved : (table.entries ++ entry :: entries).Perm (entry :: table.entries ++ entries) :=
      perm_middle
    have arranged := (perm_nodupKeys moved).mp distinct
    have fresh : table.lookup entry.1 = none := by
      rw [cons_append] at arranged
      obtain ⟨unused, -⟩ := nodupKeys_cons.mp arranged
      refine dlookup_eq_none.mpr fun used => unused ?_
      rw [List.keys, map_append]
      exact mem_append_left _ used
    have inserted : (insertAbsent table entry).entries = entry :: table.entries := by
      rw [insertAbsent, fresh, if_neg (by simp)]
      exact AList.entries_insert_of_notMem (AList.lookup_eq_none.mp fresh)
    refine (@ih (insertAbsent table entry) ?_).trans ?_
    · rw [inserted]
      exact arranged
    · rw [inserted]
      exact moved.symm

theorem yields_readMap {table : Table κ β}
    (keys : ∀ entry ∈ table.entries, Yields readKey (writeKey entry.1) entry.1)
    (values : ∀ entry ∈ table.entries, Yields readValue (writeValue entry.1 entry.2) entry.2) :
    ∃ copy : Table κ β, copy.entries.Perm table.entries ∧
      Yields (readMap readKey readValue) (writeMap le writeKey writeValue table) copy := by
  have sorted := mergeSort_perm table.entries fun first second => le first.1 second.1
  have distinct := (perm_nodupKeys sorted.symm).mp table.nodupKeys
  have copied := @entries_foldl_insertAbsent κ β _ _ ∅ distinct
  refine ⟨_, copied.trans sorted, ?_⟩
  refine (yields_readVector fun entry member => ?_).last pure.yields
  have member := sorted.mem_iff.mp member
  exact (keys entry member).bind ((values entry member).last pure.yields)

theorem fails_readMap {readKey : StreamReader κ} {readValue : StreamReader β}
    (large : maxSize < table.entries.length) :
    Fails (readMap readKey readValue) (writeMap le writeKey writeValue table) := by
  rw [← length_mergeSort table.entries] at large
  exact ((fails_readCompactSize large).bind.append _).bind

end Maps

end Deviant.Serialize
