import MpVideo.Lib.Tape
import Mathlib.Algebra.Group.Nat.Defs

/-!
# The binary stream

`cf_stream.c`: a growing byte buffer with a write position and a read position.
The list `data` holds the bytes between the start of the allocation and the
write position, so `used` is its length; `size` is the allocated length and
`rsize` the read position. Every writer first grows the allocation
(`binStreamResize`); only a caller that stores `used` itself can leave more
bytes in use than are allocated.

Multi-byte values are stored with the most significant byte first. A reader that
finds too few bytes left yields zero and does not move.
-/

set_option autoImplicit false

namespace MpVideo.Wire

/-- `DEFAULT_PACKET_SIZE`. -/
def defaultPacketSize : Nat := 1024

/-- `READ_DATA_ERROR`. -/
def readDataError : UInt16 := 0xffff

/-- A `bin_stream_t` whose buffer is allocated. -/
structure BinStream where
  /-- The bytes from the start of the buffer up to the write position. -/
  data : List UInt8
  /-- The number of allocated bytes. -/
  size : Nat
  /-- The number of bytes read. -/
  rsize : Nat
  /-- The allocation is never empty, so doubling it makes progress. -/
  size_pos : 0 < size

/-- Operations on the stream. -/
abbrev StreamM := StateM BinStream

namespace BinStream

/-- The number of bytes in use. -/
def used (strm : BinStream) : Nat := strm.data.length

/-- Move the read position. -/
def advance (n : Nat) (strm : BinStream) : BinStream := { strm with rsize := strm.rsize + n }

@[simp] theorem advance_data (n : Nat) (strm : BinStream) : (strm.advance n).data = strm.data := rfl
@[simp] theorem advance_size (n : Nat) (strm : BinStream) : (strm.advance n).size = strm.size := rfl
@[simp] theorem advance_rsize (n : Nat) (strm : BinStream) :
    (strm.advance n).rsize = strm.rsize + n := rfl

/-- The bytes between the read and the write position. -/
def unread (strm : BinStream) : List UInt8 := strm.data.drop strm.rsize

/-- The stream as a tape of bytes. -/
def tape : Tape BinStream UInt8 where
  unread := unread
  advance := advance
  unread_advance n strm := by simp only [unread, advance, List.drop_drop]
  advance_zero _ := rfl
  advance_add m n strm := by simp only [advance, Nat.add_assoc]

end BinStream

/-- `bin_stream_init`. -/
def binStreamInit : BinStream where
  data := []
  size := defaultPacketSize
  rsize := 0
  size_pos := by decide

/-- `bin_stream_rewind`: the read position returns to the start; with `reset`
the bytes in use are forgotten as well. -/
def binStreamRewind (reset : Bool) (strm : BinStream) : BinStream :=
  { strm with data := if reset then [] else strm.data, rsize := 0 }

/-- The loop of `bin_stream_resize`: double the allocation until it suffices. -/
def growSize (newSize : Nat) : Nat → Nat → Nat
  | 0, allocSize => allocSize
  | fuel + 1, allocSize =>
      if newSize > allocSize then growSize newSize fuel (allocSize * 2) else allocSize

theorem le_growSize (newSize fuel allocSize : Nat) :
    allocSize ≤ growSize newSize fuel allocSize := by
  induction fuel generalizing allocSize with
  | zero => exact Nat.le_refl _
  | succ fuel ih =>
      rw [growSize]
      split_ifs
      · exact Nat.le_trans (Nat.le_mul_of_pos_right _ (by decide)) (ih _)
      · exact Nat.le_refl _

/-- Doubling a positive allocation reaches the wanted size before `newSize`
rounds are over. -/
theorem newSize_le_growSize {newSize fuel allocSize : Nat} (positive : 0 < allocSize)
    (enough : newSize ≤ allocSize + fuel) : newSize ≤ growSize newSize fuel allocSize := by
  induction fuel generalizing allocSize with
  | zero => exact enough
  | succ fuel ih =>
      rw [growSize]
      split_ifs
      · exact ih (by omega) (by omega)
      · omega

/-- `bin_stream_resize`. -/
def binStreamResize (newSize : Nat) (strm : BinStream) : BinStream :=
  { strm with
    size := growSize newSize newSize strm.size
    size_pos := Nat.lt_of_lt_of_le strm.size_pos (le_growSize _ _ _) }

@[simp] theorem binStreamResize_data (newSize : Nat) (strm : BinStream) :
    (binStreamResize newSize strm).data = strm.data := rfl
@[simp] theorem binStreamResize_rsize (newSize : Nat) (strm : BinStream) :
    (binStreamResize newSize strm).rsize = strm.rsize := rfl

theorem le_binStreamResize_size (newSize : Nat) (strm : BinStream) :
    newSize ≤ (binStreamResize newSize strm).size :=
  newSize_le_growSize strm.size_pos (by omega)

/-! ## Byte order -/

/-- `mach_put_2`. -/
def machPut2 (val : UInt16) : List UInt8 := [(val >>> 8).toUInt8, val.toUInt8]

/-- `mach_put_4`. -/
def machPut4 (val : UInt32) : List UInt8 :=
  [(val >>> 24).toUInt8, (val >>> 16).toUInt8, (val >>> 8).toUInt8, val.toUInt8]

/-- `mach_put_8`. -/
def machPut8 (val : UInt64) : List UInt8 :=
  [(val >>> 56).toUInt8, (val >>> 48).toUInt8, (val >>> 40).toUInt8, (val >>> 32).toUInt8,
    (val >>> 24).toUInt8, (val >>> 16).toUInt8, (val >>> 8).toUInt8, val.toUInt8]

/-- `mach_get_2`. The pointer is the list of bytes that starts there. -/
def machGet2 (ptr : List UInt8) : UInt16 :=
  (((ptr.getD 0 0).toUInt16 <<< 8).toUInt32 + (ptr.getD 1 0).toUInt32).toUInt16

/-- `mach_get_4`. -/
def machGet4 (ptr : List UInt8) : UInt32 :=
  ((ptr.getD 0 0).toUInt32 <<< 24) + ((ptr.getD 1 0).toUInt32 <<< 16) +
    ((ptr.getD 2 0).toUInt32 <<< 8) + (ptr.getD 3 0).toUInt32

/-- `mach_get_8`. -/
def machGet8 (ptr : List UInt8) : UInt64 :=
  ((ptr.getD 0 0).toUInt64 <<< 56) + ((ptr.getD 1 0).toUInt64 <<< 48) +
    ((ptr.getD 2 0).toUInt64 <<< 40) + ((ptr.getD 3 0).toUInt64 <<< 32) +
    ((ptr.getD 4 0).toUInt64 <<< 24) + ((ptr.getD 5 0).toUInt64 <<< 16) +
    ((ptr.getD 6 0).toUInt64 <<< 8) + (ptr.getD 7 0).toUInt64

/-- A byte below a bound is one of the bytes up to the bound. -/
theorem getD_take {ptr : List UInt8} {i n : Nat} (below : i < n) :
    (ptr.take n).getD i 0 = ptr.getD i 0 := by
  rw [List.getD_eq_getElem?_getD, List.getD_eq_getElem?_getD, List.getElem?_take, if_pos below]

theorem machGet2_take (ptr : List UInt8) : machGet2 (ptr.take 2) = machGet2 ptr := by
  simp (disch := decide) only [machGet2, getD_take]

theorem machGet4_take (ptr : List UInt8) : machGet4 (ptr.take 4) = machGet4 ptr := by
  simp (disch := decide) only [machGet4, getD_take]

theorem machGet8_take (ptr : List UInt8) : machGet8 (ptr.take 8) = machGet8 ptr := by
  simp (disch := decide) only [machGet8, getD_take]

theorem machGet2_put (val : UInt16) (rest : List UInt8) : machGet2 (machPut2 val ++ rest) = val := by
  apply UInt16.toNat_inj.mp
  simp [machGet2, machPut2, Nat.shiftRight_eq_div_pow, Nat.shiftLeft_eq]
  have := val.toNat_lt
  omega

theorem machGet4_put (val : UInt32) (rest : List UInt8) : machGet4 (machPut4 val ++ rest) = val := by
  apply UInt32.toNat_inj.mp
  simp [machGet4, machPut4, Nat.shiftRight_eq_div_pow, Nat.shiftLeft_eq]
  have := val.toNat_lt
  omega

theorem machGet8_put (val : UInt64) (rest : List UInt8) : machGet8 (machPut8 val ++ rest) = val := by
  apply UInt64.toNat_inj.mp
  simp [machGet8, machPut8, Nat.shiftRight_eq_div_pow, Nat.shiftLeft_eq]
  have := val.toNat_lt
  omega

@[simp] theorem length_machPut2 (val : UInt16) : (machPut2 val).length = 2 := rfl
@[simp] theorem length_machPut4 (val : UInt32) : (machPut4 val).length = 4 := rfl
@[simp] theorem length_machPut8 (val : UInt64) : (machPut8 val).length = 8 := rfl

/-! ## Writers -/

/-- `RESIZE`: grow the allocation when the next `n` bytes do not fit. -/
def reserve (n : Nat) (strm : BinStream) : BinStream :=
  if strm.size < strm.used + n then binStreamResize (strm.used + n) strm else strm

/-- Copy bytes to the write position and move it. -/
def append (bytes : List UInt8) (strm : BinStream) : BinStream :=
  { strm with data := strm.data ++ bytes }

/-- The common shape of the fixed-width writers. -/
def machWrite (bytes : List UInt8) : StreamM Unit :=
  modify fun strm => append bytes (reserve bytes.length strm)

/-- `mach_uint8_write`. -/
def machUint8Write (val : UInt8) : StreamM Unit := machWrite [val]

/-- `mach_int8_write`. -/
def machInt8Write (val : Int8) : StreamM Unit := machWrite [val.toUInt8]

/-- `mach_uint16_write`. -/
def machUint16Write (val : UInt16) : StreamM Unit := machWrite (machPut2 val)

/-- `mach_int16_write`. -/
def machInt16Write (val : Int16) : StreamM Unit := machWrite (machPut2 val.toUInt16)

/-- `mach_uint32_write`. -/
def machUint32Write (val : UInt32) : StreamM Unit := machWrite (machPut4 val)

/-- `mach_int32_write`. -/
def machInt32Write (val : Int32) : StreamM Unit := machWrite (machPut4 val.toUInt32)

/-- `mach_uint64_write`. -/
def machUint64Write (val : UInt64) : StreamM Unit := machWrite (machPut8 val)

/-- `mach_int64_write`. -/
def machInt64Write (val : Int64) : StreamM Unit := machWrite (machPut8 val.toUInt64)

/-- `mach_block_write`. -/
def machBlockWrite (str : List UInt8) : StreamM Unit := machWrite str

/-- `mach_data_write`: the length as 16 bits, then the bytes. -/
def machDataWrite (str : List UInt8) : StreamM Unit := do
  modify (reserve (str.length + 2))
  machUint16Write (UInt16.ofNat str.length)
  modify (append str)

/-- The program appends `bytes`, never shrinks the allocation, leaves no more
bytes in use than allocated, and keeps the allocation when the bytes fit. -/
structure Writes (program : StreamM Unit) (bytes : List UInt8) : Prop where
  data : ∀ strm, (program.run strm).2.data = strm.data ++ bytes
  rsize : ∀ strm, (program.run strm).2.rsize = strm.rsize
  used_le : ∀ strm, strm.used ≤ strm.size →
    (program.run strm).2.used ≤ (program.run strm).2.size
  size_eq : ∀ strm, strm.used + bytes.length ≤ strm.size →
    (program.run strm).2.size = strm.size

theorem reserve_data (n : Nat) (strm : BinStream) : (reserve n strm).data = strm.data := by
  rw [reserve]; split_ifs <;> rfl

theorem reserve_rsize (n : Nat) (strm : BinStream) : (reserve n strm).rsize = strm.rsize := by
  rw [reserve]; split_ifs <;> rfl

theorem le_reserve_size (n : Nat) (strm : BinStream) :
    strm.used + n ≤ (reserve n strm).size := by
  rw [reserve]
  split_ifs with short
  · exact le_binStreamResize_size _ _
  · omega

theorem reserve_size_of_le {n : Nat} {strm : BinStream} (fits : strm.used + n ≤ strm.size) :
    (reserve n strm).size = strm.size := by
  rw [reserve, if_neg (by omega)]

theorem reserve_of_le {n : Nat} {strm : BinStream} (fits : strm.used + n ≤ strm.size) :
    reserve n strm = strm := by
  rw [reserve, if_neg (by omega)]

theorem writes_machWrite (bytes : List UInt8) : Writes (machWrite bytes) bytes where
  data strm := congrArg (· ++ bytes) (reserve_data bytes.length strm)
  rsize strm := reserve_rsize bytes.length strm
  used_le strm _ := by
    have room := le_reserve_size bytes.length strm
    have used : (append bytes (reserve bytes.length strm)).used = strm.used + bytes.length := by
      simp only [append, BinStream.used, List.length_append, reserve_data]
    exact Nat.le_trans (Nat.le_of_eq used) room
  size_eq _ fits := reserve_size_of_le fits

theorem Writes.pure : Writes (Pure.pure ()) [] where
  data _ := (List.append_nil _).symm
  rsize _ := rfl
  used_le _ h := h
  size_eq _ _ := rfl

/-- **A sequence of writers appends the concatenation.** -/
theorem Writes.bind {first second : StreamM Unit} {bytes more : List UInt8}
    (one : Writes first bytes) (two : Writes second more) :
    Writes (first >>= fun _ => second) (bytes ++ more) where
  data strm := by
    rw [StateT.run_bind]
    exact (two.data _).trans (by rw [one.data, List.append_assoc])
  rsize strm := (two.rsize _).trans (one.rsize strm)
  used_le strm h := two.used_le _ (one.used_le strm h)
  size_eq strm fits := by
    rw [List.length_append] at fits
    have kept := one.size_eq strm (by omega)
    refine (two.size_eq _ ?_).trans kept
    have used : (first.run strm).2.used = strm.used + bytes.length := by
      simp only [BinStream.used, one.data, List.length_append]
    change (first.run strm).2.used + more.length ≤ (first.run strm).2.size
    omega

/-- Length-prefixed bytes. -/
def dataBytes (str : List UInt8) : List UInt8 := machPut2 (UInt16.ofNat str.length) ++ str

@[simp] theorem length_dataBytes (str : List UInt8) : (dataBytes str).length = str.length + 2 := by
  simp only [dataBytes, List.length_append, length_machPut2]; omega

theorem machDataWrite_run (str : List UInt8) (strm : BinStream) :
    ((machDataWrite str).run strm).2 =
      append str (append (machPut2 (UInt16.ofNat str.length)) (reserve (str.length + 2) strm)) := by
  have room := le_reserve_size (str.length + 2) strm
  have used : (reserve (str.length + 2) strm).used = strm.used := by
    simp only [BinStream.used, reserve_data]
  have again : reserve 2 (reserve (str.length + 2) strm) = reserve (str.length + 2) strm :=
    reserve_of_le (by omega)
  change append str (append _ (reserve 2 (reserve (str.length + 2) strm))) = _
  rw [again]

theorem writes_data (str : List UInt8) : Writes (machDataWrite str) (dataBytes str) where
  data strm := by
    rw [machDataWrite_run]
    simp only [append, reserve_data, dataBytes, List.append_assoc]
  rsize strm := by
    rw [machDataWrite_run]
    exact reserve_rsize _ strm
  used_le strm _ := by
    rw [machDataWrite_run]
    have room := le_reserve_size (str.length + 2) strm
    simp only [append, BinStream.used, reserve_data, List.length_append, length_machPut2] at room ⊢
    omega
  size_eq strm fits := by
    rw [machDataWrite_run]
    rw [length_dataBytes] at fits
    exact reserve_size_of_le fits

/-! ## Readers -/

/-- The common shape of the fixed-width readers: too few bytes left yield `zero`
and do not move the read position. -/
def machRead {α : Type} (width : Nat) (zero : α) (get : List UInt8 → α) : StreamM α := fun strm =>
  if strm.used < strm.rsize + width then (zero, strm)
  else (get strm.unread, strm.advance width)

/-- `mach_uint8_read`. -/
def machUint8Read : StreamM UInt8 := machRead 1 0 fun ptr => ptr.getD 0 0

/-- `mach_int8_read`. -/
def machInt8Read : StreamM Int8 := machRead 1 0 fun ptr => (ptr.getD 0 0).toInt8

/-- `mach_uint16_read`; the value passes through a signed 16-bit cast. -/
def machUint16Read : StreamM UInt16 := machRead 2 0 fun ptr => (machGet2 ptr).toInt16.toUInt16

/-- `mach_int16_read`. -/
def machInt16Read : StreamM Int16 := machRead 2 0 fun ptr => (machGet2 ptr).toInt16

/-- `mach_uint32_read`. -/
def machUint32Read : StreamM UInt32 := machRead 4 0 machGet4

/-- `mach_int32_read`. -/
def machInt32Read : StreamM Int32 := machRead 4 0 fun ptr => (machGet4 ptr).toInt32

/-- `mach_uint64_read`. -/
def machUint64Read : StreamM UInt64 := machRead 8 0 machGet8

/-- `mach_int64_read`. -/
def machInt64Read : StreamM Int64 := machRead 8 0 fun ptr => (machGet8 ptr).toInt64

/-- `mach_data_read` into a destination of `size` bytes: the returned length or
`readDataError`, and the bytes copied to the destination. -/
def machDataRead (size : Nat) : StreamM (UInt16 × List UInt8) := do
  let len ← machUint16Read
  fun strm =>
    if len.toNat > size ∨ strm.rsize + len.toNat > strm.used then ((readDataError, []), strm)
    else ((len, strm.unread.take len.toNat), strm.advance len.toNat)

/-- `mach_block_read` of `size` bytes: the returned length or `readDataError`, and the bytes
copied to the destination. -/
def machBlockRead (size : Nat) : StreamM (UInt16 × List UInt8) := fun strm =>
  if strm.rsize + size > strm.used then ((readDataError, []), strm)
  else ((UInt16.ofNat size, strm.unread.take size), strm.advance size)

open BinStream

/-- The program only moves the read position, and not past the bytes in use. -/
structure ReadsOnly {α : Type} (program : StreamM α) : Prop where
  data : ∀ strm, (program.run strm).2.data = strm.data
  size : ∀ strm, (program.run strm).2.size = strm.size
  rsize_le : ∀ strm, strm.rsize ≤ strm.used → (program.run strm).2.rsize ≤ strm.used

theorem ReadsOnly.pure {α : Type} (value : α) : ReadsOnly (Pure.pure value) where
  data _ := rfl
  size _ := rfl
  rsize_le _ h := h

theorem ReadsOnly.bind {α β : Type} {first : StreamM α} {next : α → StreamM β}
    (one : ReadsOnly first) (two : ∀ value, ReadsOnly (next value)) :
    ReadsOnly (first >>= next) where
  data strm := by
    rw [StateT.run_bind]
    exact ((two _).data _).trans (one.data strm)
  size strm := by
    rw [StateT.run_bind]
    exact ((two _).size _).trans (one.size strm)
  rsize_le strm h := by
    rw [StateT.run_bind]
    have used : (first.run strm).2.used = strm.used := congrArg List.length (one.data strm)
    exact used ▸ (two _).rsize_le _ (used.symm ▸ one.rsize_le strm h)

theorem ReadsOnly.map {α β : Type} {first : StreamM α} (reads : ReadsOnly first) (f : α → β) :
    ReadsOnly (f <$> first) where
  data strm := by
    rw [StateT.run_map]
    exact reads.data strm
  size strm := by
    rw [StateT.run_map]
    exact reads.size strm
  rsize_le strm h := by
    rw [StateT.run_map]
    exact reads.rsize_le strm h

theorem ReadsOnly.times {α : Type} {program : StreamM α} (reads : ReadsOnly program) :
    ∀ n, ReadsOnly (Tape.times program n)
  | 0 => .pure []
  | n + 1 => reads.bind fun _ => (ReadsOnly.times reads n).bind fun _ => .pure _

theorem readsOnly_machRead {α : Type} (width : Nat) (zero : α) (get : List UInt8 → α) :
    ReadsOnly (machRead width zero get) where
  data strm := by
    change (machRead width zero get strm).2.data = _
    rw [machRead]; split_ifs <;> rfl
  size strm := by
    change (machRead width zero get strm).2.size = _
    rw [machRead]; split_ifs <;> rfl
  rsize_le strm h := by
    change (machRead width zero get strm).2.rsize ≤ _
    rw [machRead]
    split_ifs with short
    · exact h
    · simp only [advance_rsize]; omega

theorem readsOnly_data (size : Nat) : ReadsOnly (machDataRead size) := by
  refine (readsOnly_machRead 2 0 _).bind fun len => ⟨?_, ?_, ?_⟩
  · intro strm
    change (ite _ _ _ : (UInt16 × List UInt8) × BinStream).2.data = _
    split_ifs <;> rfl
  · intro strm
    change (ite _ _ _ : (UInt16 × List UInt8) × BinStream).2.size = _
    split_ifs <;> rfl
  · intro strm h
    change (ite _ _ _ : (UInt16 × List UInt8) × BinStream).2.rsize ≤ _
    split_ifs with long
    · exact h
    · simp only [advance_rsize]; omega

/-- A stream that starts with some unread bytes has room to read them. -/
theorem rsize_add_le_used {bytes : List UInt8} {strm : BinStream} (positive : bytes ≠ [])
    (starts : bytes <+: strm.unread) : strm.rsize + bytes.length ≤ strm.used := by
  have short := starts.length_le
  have some : 0 < bytes.length := List.length_pos_iff.mpr positive
  simp only [unread, List.length_drop] at short
  simp only [used]
  omega

theorem reads_machRead {α : Type} {width : Nat} {zero val : α} {get : List UInt8 → α}
    {bytes : List UInt8} (positive : bytes ≠ []) (length : bytes.length = width)
    (inverse : ∀ rest, get (bytes ++ rest) = val) :
    tape.Reads (machRead width zero get) bytes val := by
  intro strm starts
  have room := rsize_add_le_used positive starts
  obtain ⟨rest, split⟩ := starts
  subst length
  change machRead bytes.length zero get strm = _
  rw [machRead, if_neg (by omega)]
  change bytes ++ rest = strm.unread at split
  rw [← split, inverse]
  rfl

theorem reads_uint8 (val : UInt8) : tape.Reads machUint8Read [val] val :=
  reads_machRead (by simp) rfl fun _ => rfl

theorem reads_int8 (val : Int8) : tape.Reads machInt8Read [val.toUInt8] val :=
  reads_machRead (by simp) rfl fun _ => Int8.toInt8_toUInt8 val

theorem reads_uint16 (val : UInt16) : tape.Reads machUint16Read (machPut2 val) val :=
  reads_machRead (by simp [machPut2]) rfl fun rest => by rw [machGet2_put, UInt16.toUInt16_toInt16]

theorem reads_int16 (val : Int16) : tape.Reads machInt16Read (machPut2 val.toUInt16) val :=
  reads_machRead (by simp [machPut2]) rfl fun rest => by rw [machGet2_put, Int16.toInt16_toUInt16]

theorem reads_uint32 (val : UInt32) : tape.Reads machUint32Read (machPut4 val) val :=
  reads_machRead (by simp [machPut4]) rfl (machGet4_put val)

theorem reads_int32 (val : Int32) : tape.Reads machInt32Read (machPut4 val.toUInt32) val :=
  reads_machRead (by simp [machPut4]) rfl fun rest => by rw [machGet4_put, Int32.toInt32_toUInt32]

theorem reads_uint64 (val : UInt64) : tape.Reads machUint64Read (machPut8 val) val :=
  reads_machRead (by simp [machPut8]) rfl (machGet8_put val)

theorem reads_int64 (val : Int64) : tape.Reads machInt64Read (machPut8 val.toUInt64) val :=
  reads_machRead (by simp [machPut8]) rfl fun rest => by rw [machGet8_put, Int64.toInt64_toUInt64]

/-- Length-prefixed bytes that fit the destination and the length field are read
back. -/
theorem reads_data {str : List UInt8} {size : Nat} (fits : str.length ≤ size)
    (short : str.length < 2 ^ 16) :
    tape.Reads (machDataRead size) (dataBytes str) (UInt16.ofNat str.length, str) := by
  have len : (UInt16.ofNat str.length).toNat = str.length := by
    rw [UInt16.toNat_ofNat']
    exact Nat.mod_eq_of_lt short
  intro strm starts
  have room := rsize_add_le_used (by simp [dataBytes, machPut2]) starts
  obtain ⟨rest, split⟩ := starts
  have split' : tape.unread strm = machPut2 (UInt16.ofNat str.length) ++ (str ++ rest) := by
    rw [← split, dataBytes, List.append_assoc]
  have after : (strm.advance 2).unread = str ++ rest :=
    show tape.unread (tape.advance 2 strm) = str ++ rest from Tape.unread_after split'
  rw [machDataRead, StateT.run_bind, (reads_uint16 _).run_eq split']
  change (if _ then _ else _ : (UInt16 × List UInt8) × BinStream) = _
  rw [length_dataBytes] at room
  rw [len, if_neg (by simp only [tape, advance, used, length_machPut2] at room ⊢; omega)]
  change ((_, List.take _ (strm.advance 2).unread), _) = _
  rw [after, List.take_left]
  simp only [tape, advance, length_machPut2, length_dataBytes, Nat.add_assoc, Nat.add_comm 2]

/-- A block of known size is read back. Without bytes this needs the read position to be
within the bytes in use. -/
theorem machBlockRead_run {str rest : List UInt8} {strm : BinStream}
    (within : strm.rsize ≤ strm.used) (starts : strm.unread = str ++ rest) :
    (machBlockRead str.length).run strm =
      ((UInt16.ofNat str.length, str), strm.advance str.length) := by
  have short := congrArg List.length starts
  rw [unread, List.length_drop, List.length_append] at short
  change machBlockRead str.length strm = _
  rw [machBlockRead, if_neg (by simp only [used] at within ⊢; omega), starts, List.take_left]

end MpVideo.Wire
