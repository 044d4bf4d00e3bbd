import Mathlib.Algebra.Order.Ring.Nat
import Mathlib.Data.List.Basic

namespace Deviant.Data

/-! Readers of byte streams and the relation between a reader and the bytes of one value.

A reader takes bytes from the front of a stream or fails.  `Reads read bytes value` says that
`read` takes exactly `bytes`, whatever follows them, and returns `value`: the form in which a
decoder is the inverse of an encoder and in which decoders compose. -/

abbrev Bytes := List UInt8

abbrev Reader (ε α : Type) := StateT Bytes (Except ε) α

variable {ε α β : Type}

def Reads (read : Reader ε α) (bytes : Bytes) (value : α) : Prop :=
  ∀ rest, read.run (bytes ++ rest) = .ok (value, rest)

variable {read : Reader ε α} {value : α} {bytes : Bytes} {next : α → Reader ε β} {result : β}
    {first second : Bytes}

namespace Reads

theorem pure : Reads (Pure.pure value : Reader ε α) [] value := fun _ => rfl

theorem bind (readsFirst : Reads read first value) (readsSecond : Reads (next value) second result) :
    Reads (read >>= next) (first ++ second) result := by
  intro rest
  rw [StateT.run_bind, List.append_assoc, readsFirst (second ++ rest)]
  exact readsSecond rest

theorem map (convert : α → β) (reads : Reads read bytes value) :
    Reads (convert <$> read) bytes (convert value) := by
  intro rest
  rw [StateT.run_map, reads rest]
  rfl

theorem last (reads : Reads read bytes value) (ends : Reads (next value) [] result) :
    Reads (read >>= next) bytes result := by
  simpa using reads.bind ends

end Reads

/-- A weaker relation for values that a reader may refuse: it returns `value` or fails. -/
def Yields (read : Reader ε α) (bytes : Bytes) (value : α) : Prop :=
  ∀ rest, read.run (bytes ++ rest) = .ok (value, rest) ∨ ∃ reason,
    read.run (bytes ++ rest) = .error reason

theorem Reads.yields (reads : Reads read bytes value) :
    Yields read bytes value := fun rest => .inl (reads rest)

def Fails (read : Reader ε α) (bytes : Bytes) :
    Prop := ∀ rest, ∃ reason, read.run (bytes ++ rest) = .error reason

theorem Fails.yields (fails : Fails read bytes) :
    Yields read bytes value := fun rest => .inr (fails rest)

theorem Reads.bind_fails (reads : Reads read first value) (fails : Fails (next value) second) :
    Fails (read >>= next) (first ++ second) := by
  intro rest
  rw [StateT.run_bind, List.append_assoc, reads (second ++ rest)]
  exact fails rest

theorem Fails.append (fails : Fails read bytes) (more : Bytes) : Fails read (bytes ++ more) := by
  intro rest
  rw [List.append_assoc]
  exact fails (more ++ rest)

theorem Fails.bind (fails : Fails read bytes) : Fails (read >>= next) bytes := by
  intro rest
  obtain ⟨reason, failed⟩ := fails rest
  rw [StateT.run_bind, failed]
  exact ⟨reason, rfl⟩

namespace Yields

theorem bind (yieldsFirst : Yields read first value)
    (yieldsSecond : Yields (next value) second result) :
    Yields (read >>= next) (first ++ second) result := by
  intro rest
  rw [StateT.run_bind, List.append_assoc]
  cases yieldsFirst (second ++ rest) with
  | inl returned =>
    rw [returned]
    exact yieldsSecond rest
  | inr failed =>
    obtain ⟨reason, failed⟩ := failed
    rw [failed]
    exact .inr ⟨reason, rfl⟩

theorem last (yields : Yields read bytes value) (ends : Yields (next value) [] result) :
    Yields (read >>= next) bytes result := by
  simpa using yields.bind ends

end Yields

variable (ended : ε)

/-- Takes `count` bytes, or fails with `ended` if the stream is shorter. -/
def takeBytes (count : Nat) : Reader ε Bytes := fun stream =>
  if stream.length < count then .error ended else .ok (stream.take count, stream.drop count)

theorem reads_takeBytes {ended : ε} {count : Nat} (size : bytes.length = count) :
    Reads (takeBytes ended count) bytes bytes := by
  intro rest
  simp [takeBytes, StateT.run, ← size]

def takeByte : Reader ε UInt8 := fun stream =>
  match stream with
  | [] => .error ended
  | byte :: rest => .ok (byte, rest)

theorem reads_takeByte (byte : UInt8) : Reads (takeByte ended) [byte] byte := fun _ => rfl

/-! Fixed-width little-endian integers. -/

def littleEndian : (width : Nat) → (value : Nat) → Bytes
  | 0, _ => []
  | width + 1, value => UInt8.ofNat value :: littleEndian width (value / 256)

def ofLittleEndian : Bytes → Nat
  | [] => 0
  | byte :: rest => byte.toNat + 256 * ofLittleEndian rest

@[simp] theorem length_littleEndian (value : Nat) : (littleEndian width value).length = width := by
  induction width generalizing value with
  | zero => rfl
  | succ width ih => simp [littleEndian, ih]

theorem ofLittleEndian_littleEndian (value : Nat) :
    ofLittleEndian (littleEndian width value) = value % 256 ^ width := by
  induction width generalizing value with
  | zero => simp [littleEndian, ofLittleEndian, Nat.mod_one]
  | succ width ih =>
    have digits : value % 256 ^ (width + 1) = value % 256 + 256 * (value / 256 % 256 ^ width) := by
      rw [pow_succ', Nat.mod_mul]
    rw [digits, littleEndian, ofLittleEndian, ih, UInt8.toNat_ofNat']

def takeLittleEndian (width : Nat) : Reader ε Nat :=
  ofLittleEndian <$> takeBytes ended width

theorem reads_takeLittleEndian (width value : Nat) :
    Reads (takeLittleEndian ended width) (littleEndian width value) (value % 256 ^ width) := by
  have whole : Reads (takeBytes ended width) (littleEndian width value) (littleEndian width value) :=
    reads_takeBytes (length_littleEndian value)
  have reads := whole.map ofLittleEndian
  rwa [ofLittleEndian_littleEndian] at reads

/-! A given number of elements, one after the other. -/

def takeMany (read : Reader ε α) : Nat → Reader ε (List α)
  | 0 => pure []
  | count + 1 => do
      let first ← read
      let others ← takeMany read count
      pure (first :: others)

theorem reads_takeMany {write : α → Bytes} (reads : ∀ value ∈ values, Reads read (write value) value) :
    Reads (takeMany read values.length) (values.flatMap write) values := by
  induction values with
  | nil => exact Reads.pure
  | cons value values ih =>
    obtain ⟨first, others⟩ := List.forall_mem_cons.mp reads
    exact first.bind ((ih others).last Reads.pure)

theorem yields_takeMany {write : α → Bytes}
    (yields : ∀ value ∈ values, Yields read (write value) value) :
    Yields (takeMany read values.length) (values.flatMap write) values := by
  induction values with
  | nil => exact Reads.pure.yields
  | cons value values ih =>
    obtain ⟨first, others⟩ := List.forall_mem_cons.mp yields
    exact first.bind ((ih others).last Reads.pure.yields)

end Deviant.Data
