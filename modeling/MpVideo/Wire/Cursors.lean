import MpVideo.Lib.Memory
import MpVideo.Wire.Stream

/-!
# The binary stream with its pointers

`cf_stream.c` keeps a pointer beside each of the two positions of a stream: `wptr` beside
`used` and `rptr` beside `rsize`. When the allocation grows, the block may move, and both
pointers are computed again. Here the stream is modelled with its pointers and the memory;
access outside the allocation is undefined.

The stream of `MpVideo.Wire.Stream` is what a sound stream with pointers shows (`Views`).
Writers and readers are defined from such a stream, do what they do there, and every call
of `bin_stream_resize` on the way keeps the bytes and the offsets of both pointers
(`Simulates`, `SimulatesRead`).
-/

set_option autoImplicit false

namespace MpVideo.Wire

/-- A `bin_stream_t` and the memory. -/
structure RawStream where
  mem : Memory UInt8
  data : ℕ
  size : ℕ
  rptr : ℕ
  rsize : ℕ
  wptr : ℕ
  used : ℕ

/-- A call of `bin_stream_resize`. -/
structure Resize where
  before : RawStream
  after : RawStream

namespace RawStream

variable (realloc : Realloc UInt8)

/-- `bin_stream_init`, at the address that `malloc` gives. -/
def binStreamInit (data : ℕ) (mem : Memory UInt8) : RawStream where
  mem := mem
  data := data
  size := defaultPacketSize
  rptr := data
  rsize := 0
  wptr := data
  used := 0

/-- `bin_stream_rewind`. -/
def binStreamRewind (reset : Bool) (strm : RawStream) : RawStream :=
  let strm := if reset then { strm with wptr := strm.data, used := 0 } else strm
  { strm with rptr := strm.data, rsize := 0 }

/-- `bin_stream_resize`. -/
def binStreamResize (newSize : ℕ) (strm : RawStream) : RawStream :=
  if newSize ≤ strm.size then strm
  else
    let allocSize := growSize newSize newSize strm.size
    let (data, mem) := realloc.realloc strm.data strm.size allocSize strm.mem
    { strm with mem, data, size := allocSize, wptr := data + strm.used, rptr := data + strm.rsize }

/-- `RESIZE`, with the call of `bin_stream_resize` if there is one. -/
def reserve (n : ℕ) (strm : RawStream) : RawStream × List Resize :=
  if strm.size < strm.used + n then
    let grown := binStreamResize realloc (strm.used + n) strm
    (grown, [⟨strm, grown⟩])
  else (strm, [])

/-- Bytes are stored at `wptr`, which moves behind them. -/
def put (bytes : List UInt8) (strm : RawStream) : Option RawStream :=
  if strm.data ≤ strm.wptr ∧ strm.wptr + bytes.length ≤ strm.data + strm.size then
    some { strm with
      mem := strm.mem.store strm.wptr bytes
      wptr := strm.wptr + bytes.length
      used := strm.used + bytes.length }
  else none

/-- Bytes are loaded from `rptr`, which moves behind them. -/
def get (n : ℕ) (strm : RawStream) : Option (List UInt8 × RawStream) :=
  if strm.data ≤ strm.rptr ∧ strm.rptr + n ≤ strm.data + strm.size then
    some (strm.mem.load strm.rptr n,
      { strm with rptr := strm.rptr + n, rsize := strm.rsize + n })
  else none

/-- The common shape of the fixed-width writers. -/
def machWrite (bytes : List UInt8) (strm : RawStream) : Option (RawStream × List Resize) :=
  let (strm, resizes) := strm.reserve realloc bytes.length
  (strm.put bytes).map (·, resizes)

/-- `mach_uint8_write`. -/
def machUint8Write (val : UInt8) := machWrite realloc [val]

/-- `mach_int8_write`. -/
def machInt8Write (val : Int8) := machWrite realloc [val.toUInt8]

/-- `mach_uint16_write`. -/
def machUint16Write (val : UInt16) := machWrite realloc (machPut2 val)

/-- `mach_int16_write`. -/
def machInt16Write (val : Int16) := machWrite realloc (machPut2 val.toUInt16)

/-- `mach_uint32_write`. -/
def machUint32Write (val : UInt32) := machWrite realloc (machPut4 val)

/-- `mach_int32_write`. -/
def machInt32Write (val : Int32) := machWrite realloc (machPut4 val.toUInt32)

/-- `mach_uint64_write`. -/
def machUint64Write (val : UInt64) := machWrite realloc (machPut8 val)

/-- `mach_int64_write`. -/
def machInt64Write (val : Int64) := machWrite realloc (machPut8 val.toUInt64)

/-- `mach_data_write`. -/
def machDataWrite (str : List UInt8) (strm : RawStream) : Option (RawStream × List Resize) :=
  let (strm, first) := strm.reserve realloc (str.length + 2)
  (machUint16Write realloc (UInt16.ofNat str.length) strm).bind fun (strm, second) =>
    (strm.put str).map (·, first ++ second)

/-- `mach_block_write`. -/
def machBlockWrite (str : List UInt8) := machWrite realloc str

/-- The common shape of the fixed-width readers. -/
def machRead {α : Type} (width : ℕ) (zero : α) (value : List UInt8 → α) (strm : RawStream) :
    Option (α × RawStream) :=
  if strm.used < strm.rsize + width then some (zero, strm)
  else (strm.get width).map fun (bytes, strm) => (value bytes, strm)

/-- `mach_uint8_read`. -/
def machUint8Read := machRead 1 (0 : UInt8) fun ptr => ptr.getD 0 0

/-- `mach_int8_read`. -/
def machInt8Read := machRead 1 (0 : Int8) fun ptr => (ptr.getD 0 0).toInt8

/-- `mach_uint16_read`; the value passes through a signed 16-bit cast. -/
def machUint16Read := machRead 2 (0 : UInt16) fun ptr => (machGet2 ptr).toInt16.toUInt16

/-- `mach_int16_read`. -/
def machInt16Read := machRead 2 (0 : Int16) fun ptr => (machGet2 ptr).toInt16

/-- `mach_uint32_read`. -/
def machUint32Read := machRead 4 (0 : UInt32) machGet4

/-- `mach_int32_read`. -/
def machInt32Read := machRead 4 (0 : Int32) fun ptr => (machGet4 ptr).toInt32

/-- `mach_uint64_read`. -/
def machUint64Read := machRead 8 (0 : UInt64) machGet8

/-- `mach_int64_read`. -/
def machInt64Read := machRead 8 (0 : Int64) fun ptr => (machGet8 ptr).toInt64

/-- `mach_data_read`: the returned length or `readDataError`, and the bytes copied to the
destination. -/
def machDataRead (size : ℕ) (strm : RawStream) : Option ((UInt16 × List UInt8) × RawStream) :=
  (machUint16Read strm).bind fun (len, strm) =>
    if len.toNat > size ∨ strm.rsize + len.toNat > strm.used then
      some ((readDataError, []), strm)
    else (strm.get len.toNat).map fun (bytes, strm) => ((len, bytes), strm)

/-- `mach_block_read`. -/
def machBlockRead (size : ℕ) (strm : RawStream) : Option ((UInt16 × List UInt8) × RawStream) :=
  if strm.rsize + size > strm.used then some ((readDataError, []), strm)
  else (strm.get size).map fun (bytes, strm) => ((UInt16.ofNat size, bytes), strm)

/-- The stream shows these bytes, and its pointers are where its positions are. -/
structure Views (raw : RawStream) (strm : BinStream) : Prop where
  size : raw.size = strm.size
  rsize : raw.rsize = strm.rsize
  used : raw.used = strm.used
  wptr : raw.wptr = raw.data + raw.used
  rptr : raw.rptr = raw.data + raw.rsize
  bytes : raw.mem.load raw.data raw.used = strm.data
  used_le : raw.used ≤ raw.size

end RawStream

/-- A call of `bin_stream_resize` left the bytes that were written, and both pointers, at the
offsets where they were, and the bytes fit the allocation. -/
structure Resize.Keeps (resize : Resize) : Prop where
  used : resize.after.used = resize.before.used
  rsize : resize.after.rsize = resize.before.rsize
  bytes : ∀ i < resize.before.used, resize.after.mem (resize.after.data + i) =
    resize.before.mem (resize.before.data + i)
  wptr : resize.before.wptr = resize.before.data + resize.before.used ∧
    resize.after.wptr = resize.after.data + resize.after.used
  rptr : resize.before.rptr = resize.before.data + resize.before.rsize ∧
    resize.after.rptr = resize.after.data + resize.after.rsize
  used_le : resize.after.used ≤ resize.after.size

namespace RawStream

variable (realloc : Realloc UInt8) {raw : RawStream} {strm : BinStream}

/-- A stream that was initialised shows an empty one. -/
theorem views_binStreamInit (data : ℕ) (mem : Memory UInt8) :
    Views (binStreamInit data mem) Wire.binStreamInit where
  size := rfl
  rsize := rfl
  used := rfl
  wptr := rfl
  rptr := rfl
  bytes := rfl
  used_le := Nat.zero_le _

theorem Views.binStreamRewind (views : Views raw strm) (reset : Bool) :
    Views (raw.binStreamRewind reset) (Wire.binStreamRewind reset strm) := by
  cases reset with
  | false => exact { views with rsize := rfl, rptr := rfl }
  | true =>
      exact {
        size := views.size
        rsize := rfl
        used := rfl
        wptr := rfl
        rptr := rfl
        bytes := rfl
        used_le := Nat.zero_le _ }

/-! ## Growing -/

/-- **A call of `bin_stream_resize` keeps what the stream shows.** -/
theorem Views.binStreamResize (views : Views raw strm) {newSize : ℕ} (more : strm.size < newSize) :
    Views (raw.binStreamResize realloc newSize) (Wire.binStreamResize newSize strm) ∧
      Resize.Keeps ⟨raw, raw.binStreamResize realloc newSize⟩ := by
  have grows : raw.size ≤ growSize newSize newSize raw.size := le_growSize ..
  have copied := realloc.copies raw.data raw.size (growSize newSize newSize raw.size) raw.mem
    raw.used views.used_le
    (Nat.le_trans views.used_le grows)
  rw [RawStream.binStreamResize, if_neg (by rw [views.size]; omega)]
  constructor
  · exact {
      size := congrArg (growSize newSize newSize) views.size
      rsize := views.rsize
      used := views.used
      wptr := rfl
      rptr := rfl
      bytes := copied.trans views.bytes
      used_le := Nat.le_trans views.used_le grows }
  · exact {
      used := rfl
      rsize := rfl
      bytes := fun i below => Memory.eq_of_load copied below
      wptr := ⟨views.wptr, rfl⟩
      rptr := ⟨views.rptr, rfl⟩
      used_le := Nat.le_trans views.used_le grows }

theorem Views.reserve (views : Views raw strm) (n : ℕ) :
    Views (raw.reserve realloc n).1 (Wire.reserve n strm) ∧
      ∀ resize ∈ (raw.reserve realloc n).2, resize.Keeps := by
  rw [RawStream.reserve, Wire.reserve, views.size, views.used]
  split_ifs with short
  · obtain ⟨grown, keeps⟩ := views.binStreamResize realloc short
    exact ⟨grown, fun resize member => List.mem_singleton.mp member ▸ keeps⟩
  · exact ⟨views, fun resize member => absurd member List.not_mem_nil⟩

/-! ## Writing -/

/-- Bytes for which there is room are put behind those that are there. -/
theorem Views.put (views : Views raw strm) (bytes : List UInt8)
    (room : strm.used + bytes.length ≤ strm.size) :
    ∃ after, raw.put bytes = some after ∧ Views after (append bytes strm) := by
  have place := views.wptr
  have used := views.used
  have size := views.size
  rw [RawStream.put, if_pos (by omega)]
  refine ⟨_, rfl, ?_⟩
  exact {
    size := size
    rsize := views.rsize
    used := by
      change raw.used + bytes.length = (strm.data ++ bytes).length
      rw [List.length_append, used]
      rfl
    wptr := by
      change raw.wptr + bytes.length = raw.data + (raw.used + bytes.length)
      omega
    rptr := views.rptr
    bytes := by
      change (raw.mem.store raw.wptr bytes).load raw.data (raw.used + bytes.length) =
        strm.data ++ bytes
      rw [Memory.load_add, ← place, Memory.load_store,
        Memory.load_store_behind (Nat.le_of_eq place.symm), views.bytes]
    used_le := by
      change raw.used + bytes.length ≤ raw.size
      omega }

/-- A writer is defined, does what a writer of the shown stream does, and its calls of
`bin_stream_resize` keep the bytes and the pointers. -/
def Simulates (write : RawStream → Option (RawStream × List Resize)) (program : StreamM Unit) :
    Prop :=
  ∀ raw strm, Views raw strm → ∃ after resizes, write raw = some (after, resizes) ∧
    Views after (program.run strm).2 ∧ ∀ resize ∈ resizes, resize.Keeps

theorem simulates_machWrite (bytes : List UInt8) :
    Simulates (machWrite realloc bytes) (Wire.machWrite bytes) := by
  intro raw strm views
  obtain ⟨grown, kept⟩ := views.reserve realloc bytes.length
  obtain ⟨after, put, shown⟩ := grown.put bytes (by
    have room := le_reserve_size bytes.length strm
    simp only [BinStream.used, reserve_data] at room ⊢
    exact room)
  refine ⟨after, _, ?_, shown, kept⟩
  change ((raw.reserve realloc bytes.length).1.put bytes).map (·, _) = _
  rw [put]
  rfl

/-- **The nested writer of `mach_data_write` finds room**, and so do the bytes after it. -/
theorem simulates_machDataWrite (str : List UInt8) :
    Simulates (machDataWrite realloc str) (Wire.machDataWrite str) := by
  intro raw strm views
  obtain ⟨grown, kept⟩ := views.reserve realloc (str.length + 2)
  obtain ⟨prefixed, second, length, views', keptToo⟩ :=
    simulates_machWrite realloc (machPut2 (UInt16.ofNat str.length)) _ _ grown
  have writes := writes_machWrite (machPut2 (UInt16.ofNat str.length))
  have room := le_reserve_size (str.length + 2) strm
  have same : (Wire.reserve (str.length + 2) strm).used = strm.used := by
    simp only [BinStream.used, reserve_data]
  obtain ⟨after, put, shown⟩ := views'.put str (by
    rw [writes.size_eq _ (by rw [length_machPut2]; omega), BinStream.used, writes.data,
      List.length_append, length_machPut2]
    change (Wire.reserve (str.length + 2) strm).used + 2 + str.length ≤ _
    omega)
  refine ⟨after, (raw.reserve realloc (str.length + 2)).2 ++ second, ?_, shown, ?_⟩
  · change ((machWrite realloc _ (raw.reserve realloc (str.length + 2)).1).bind fun pair =>
      (pair.1.put str).map (·, _ ++ pair.2)) = _
    rw [length, Option.bind_some, put]
    rfl
  · intro resize member
    exact (List.mem_append.mp member).elim (kept resize) (keptToo resize)

/-! ## Reading -/

/-- Bytes that are in use are loaded. -/
theorem Views.get (views : Views raw strm) {n : ℕ} (within : strm.rsize + n ≤ strm.used) :
    ∃ after, raw.get n = some (strm.unread.take n, after) ∧ Views after (strm.advance n) := by
  have place := views.rptr
  have fits := views.used_le
  have used := views.used
  have rsize := views.rsize
  rw [RawStream.get, if_pos (by omega)]
  have loaded : raw.mem.load raw.rptr n = strm.unread.take n := by
    obtain ⟨rest, all⟩ := Nat.exists_eq_add_of_le (show raw.rsize + n ≤ raw.used by omega)
    rw [BinStream.unread, ← views.bytes, ← rsize, all, Nat.add_assoc, Memory.drop_load, ← place,
      Memory.take_load (Nat.le_add_right n rest)]
  refine ⟨_, by rw [loaded], ?_⟩
  exact {
    size := views.size
    rsize := congrArg (· + n) rsize
    used := used
    wptr := views.wptr
    rptr := by
      change raw.rptr + n = raw.data + (raw.rsize + n)
      omega
    bytes := views.bytes
    used_le := fits }

/-- A reader is defined, and does what a reader of the shown stream does. -/
def SimulatesRead {α : Type} (read : RawStream → Option (α × RawStream)) (program : StreamM α) :
    Prop :=
  ∀ raw strm, Views raw strm → ∃ after, read raw = some ((program.run strm).1, after) ∧
    Views after (program.run strm).2

/-- The value is read from the first `width` bytes only. -/
theorem simulates_machRead {α : Type} {width : ℕ} {zero : α} {value : List UInt8 → α}
    (only : ∀ ptr, value (ptr.take width) = value ptr) :
    SimulatesRead (machRead width zero value) (Wire.machRead width zero value) := by
  intro raw strm views
  change ∃ after, machRead width zero value raw =
    some ((Wire.machRead width zero value strm).1, after) ∧
      Views after (Wire.machRead width zero value strm).2
  rw [machRead, Wire.machRead, views.used, views.rsize]
  split_ifs with short
  · exact ⟨raw, rfl, views⟩
  · obtain ⟨after, got, shown⟩ := views.get (n := width) (by omega)
    refine ⟨after, ?_, shown⟩
    rw [got, Option.map_some]
    exact congrArg (fun read => some (read, after)) (only strm.unread)

theorem simulates_machUint16Read : SimulatesRead machUint16Read Wire.machUint16Read :=
  simulates_machRead fun ptr => by rw [machGet2_take]

theorem simulates_machDataRead (size : ℕ) :
    SimulatesRead (machDataRead size) (Wire.machDataRead size) := by
  intro raw strm views
  obtain ⟨middle, length, shown⟩ := simulates_machUint16Read raw strm views
  rw [machDataRead, length, Option.bind_some, Wire.machDataRead, StateT.run_bind]
  generalize Wire.machUint16Read.run strm = read at shown ⊢
  obtain ⟨len, strm⟩ := read
  dsimp only at shown ⊢
  change ∃ after, _ = some ((ite _ _ _ : (UInt16 × List UInt8) × BinStream).1, after) ∧
    Views after (ite _ _ _ : (UInt16 × List UInt8) × BinStream).2
  rw [shown.rsize, shown.used]
  split_ifs with long
  · exact ⟨middle, rfl, shown⟩
  · obtain ⟨after, got, shown⟩ := shown.get (n := len.toNat) (by omega)
    exact ⟨after, by rw [got]; rfl, shown⟩

theorem simulates_machBlockRead (size : ℕ) :
    SimulatesRead (machBlockRead size) (Wire.machBlockRead size) := by
  intro raw strm views
  change ∃ after, machBlockRead size raw = some ((Wire.machBlockRead size strm).1, after) ∧
    Views after (Wire.machBlockRead size strm).2
  rw [machBlockRead, Wire.machBlockRead, views.rsize, views.used]
  split_ifs with long
  · exact ⟨raw, rfl, views⟩
  · obtain ⟨after, got, shown⟩ := views.get (n := size) (by omega)
    exact ⟨after, by rw [got]; rfl, shown⟩

end RawStream

end MpVideo.Wire
