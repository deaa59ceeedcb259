import Mathlib.Data.Nat.Digits.Defs

/-!
# Records in a bounded stream of bytes

A `ByteStream` holds at most `cap` bytes.  A non-blocking `write` puts all its bytes into the stream
or none, and `read` takes up to a number of bytes from the front.  The stream has no boundaries
between what was written: when records of one size are written, and behind the last record possibly
something shorter, a reader that asks for the size of a record still gets one record after the
other, because the stream always starts with a record.  `RecordStream` is this invariant.

`leBytes` are the bytes of a number in memory, the least significant one first.
-/

namespace DeepInIo

/-! ### Numbers in memory -/

/-- The `w` bytes of a number, the least significant one first. -/
def leBytes (w n : ℕ) : List UInt8 :=
  (List.range w).map fun i => UInt8.ofNat (n / 256 ^ i)

/-- The number with these bytes. -/
def ofLeBytes (bs : List UInt8) : ℕ :=
  Nat.ofDigits 256 (bs.map UInt8.toNat)

@[simp] theorem length_leBytes (w n : ℕ) : (leBytes w n).length = w := by
  simp [leBytes]

/-- The bytes determine the number as far as they reach. -/
theorem ofLeBytes_leBytes (w n : ℕ) : ofLeBytes (leBytes w n) = n % 256 ^ w := by
  have hdigits : (leBytes w n).map UInt8.toNat = (List.range w).map fun i => n / 256 ^ i % 256 := by
    simp [leBytes, Function.comp_def]
  rw [ofLeBytes, hdigits]
  clear hdigits
  induction w with
  | zero => simp [Nat.mod_one]
  | succ w ih =>
    rw [List.range_succ, List.map_append, Nat.ofDigits_append, ih, List.length_map,
      List.length_range, Nat.pow_succ, Nat.mod_mul]
    simp [Nat.ofDigits_singleton]

/-! ### Streams -/

/-- A stream of at most `cap` bytes. -/
structure ByteStream (β : Type*) (cap : ℕ) where
  bytes : List β
  length_le : bytes.length ≤ cap

namespace ByteStream

variable {β : Type*} {cap : ℕ}

/-- The stream without bytes. -/
def empty : ByteStream β cap :=
  ⟨[], Nat.zero_le cap⟩

/-- All bytes are written if there is room for them, and otherwise none. -/
def write (p : ByteStream β cap) (data : List β) : Option (ByteStream β cap) :=
  if h : p.bytes.length + data.length ≤ cap then
    some ⟨p.bytes ++ data, by rwa [List.length_append]⟩
  else none

/-- Up to `k` bytes are read. -/
def read (p : ByteStream β cap) (k : ℕ) : List β × ByteStream β cap :=
  (p.bytes.take k, ⟨p.bytes.drop k, by
    rw [List.length_drop]
    exact (Nat.sub_le ..).trans p.length_le⟩)

theorem fst_read (p : ByteStream β cap) (k : ℕ) : (p.read k).1 = p.bytes.take k := rfl

theorem bytes_read (p : ByteStream β cap) (k : ℕ) : (p.read k).2.bytes = p.bytes.drop k := rfl

/-- What a `write` leaves. -/
theorem bytes_of_write {p p' : ByteStream β cap} {data : List β} (h : p.write data = some p') :
    p'.bytes = p.bytes ++ data := by
  unfold write at h
  split at h
  · cases h
    rfl
  · cases h

end ByteStream

/-! ### Records -/

/-- The bytes are those of some records, and behind them not enough bytes for a record. -/
structure RecordStream {ρ β : Type*} (enc : ρ → List β) (size : ℕ) (rs : List ρ)
    (tail bytes : List β) : Prop where
  eq : bytes = rs.flatMap enc ++ tail
  short : tail.length < size

namespace RecordStream

variable {ρ β : Type*} {cap : ℕ} {enc : ρ → List β} {size : ℕ} {r : ρ} {rs : List ρ} {tail : List β}
  {p p' : ByteStream β cap}

/-- The empty stream. -/
theorem empty (hpos : 0 < size) :
    RecordStream enc size [] [] (ByteStream.empty : ByteStream β cap).bytes :=
  ⟨rfl, hpos⟩

/-- A record is written. -/
theorem write (h : RecordStream enc size rs [] p.bytes) (hw : p.write (enc r) = some p') :
    RecordStream enc size (rs ++ [r]) [] p'.bytes := by
  refine ⟨?_, h.short⟩
  rw [ByteStream.bytes_of_write hw, h.eq, List.flatMap_append, List.flatMap_singleton,
    List.append_nil, List.append_nil]

/-- Something shorter than a record is written. -/
theorem write_short (h : RecordStream enc size rs [] p.bytes) {data : List β}
    (hlt : data.length < size) (hw : p.write data = some p') :
    RecordStream enc size rs data p'.bytes := by
  refine ⟨?_, hlt⟩
  rw [ByteStream.bytes_of_write hw, h.eq, List.append_nil]

/-- A reader that asks for the size of a record gets the first record. -/
theorem read_cons (h : RecordStream enc size (r :: rs) tail p.bytes)
    (hsize : (enc r).length = size) :
    (p.read size).1 = enc r ∧ RecordStream enc size rs tail (p.read size).2.bytes := by
  have heq : p.bytes = enc r ++ (rs.flatMap enc ++ tail) := by
    rw [h.eq, List.flatMap_cons, List.append_assoc]
  refine ⟨?_, ?_, h.short⟩
  · rw [ByteStream.fst_read, heq, ← hsize, List.take_left]
  · rw [ByteStream.bytes_read, heq, ← hsize, List.drop_left]

/-- When there is no record, the reader gets what is left. -/
theorem read_nil (h : RecordStream enc size [] tail p.bytes) :
    (p.read size).1 = tail ∧ RecordStream enc size [] [] (p.read size).2.bytes := by
  have heq : p.bytes = tail := h.eq
  refine ⟨?_, ?_, Nat.zero_lt_of_lt h.short⟩
  · rw [ByteStream.fst_read, heq, List.take_of_length_le h.short.le]
  · rw [ByteStream.bytes_read, heq, List.drop_of_length_le h.short.le]
    rfl

end RecordStream

end DeepInIo
