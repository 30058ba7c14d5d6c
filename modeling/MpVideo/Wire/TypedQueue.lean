import MpVideo.Lib.Machine
import MpVideo.Wire.Cursors

/-!
# The binary stream as a queue of typed values

What is written to a stream by the functions of `cf_stream.c` is read back in order by the
functions that belong to them. Data carry their length, and blocks do not; both are shorter
than `READ_DATA_ERROR`, so that the length that a reader returns tells them from an error.

A stream whose unread bytes are those of some values behaves as the queue of these values
(`Holds.step`), in every sequence of writes and reads that is possible on the queue
(`refines`). In particular all values are read back from a stream that was rewound
(`readBack`).
-/

set_option autoImplicit false

namespace MpVideo.Wire

open BinStream

/-- Bytes whose number is no error value. -/
abbrev ShortBytes := { str : List UInt8 // str.length ≤ 65534 }

/-- A value that is written to a stream. -/
inductive Value where
  | uint8 (val : UInt8)
  | int8 (val : Int8)
  | uint16 (val : UInt16)
  | int16 (val : Int16)
  | uint32 (val : UInt32)
  | int32 (val : Int32)
  | uint64 (val : UInt64)
  | int64 (val : Int64)
  | data (str : ShortBytes)
  | block (str : ShortBytes)

/-- A call of a reader, with the size of the destination or of the block. -/
inductive Request where
  | uint8 | int8 | uint16 | int16 | uint32 | int32 | uint64 | int64
  | data (size : ℕ)
  | block (size : ℕ)

/-- What a reader gives: the value, or the returned length and the bytes. -/
inductive Reply where
  | uint8 (val : UInt8)
  | int8 (val : Int8)
  | uint16 (val : UInt16)
  | int16 (val : Int16)
  | uint32 (val : UInt32)
  | int32 (val : Int32)
  | uint64 (val : UInt64)
  | int64 (val : Int64)
  | data (len : UInt16) (str : List UInt8)
  | block (len : UInt16) (str : List UInt8)

/-- The call that belongs to a value; the destination of data suffices, and the size of a
block is known. -/
def Request.fits : Request → Value → Bool
  | .uint8, .uint8 _ => true
  | .int8, .int8 _ => true
  | .uint16, .uint16 _ => true
  | .int16, .int16 _ => true
  | .uint32, .uint32 _ => true
  | .int32, .int32 _ => true
  | .uint64, .uint64 _ => true
  | .int64, .int64 _ => true
  | .data size, .data str => str.1.length ≤ size
  | .block size, .block str => size = str.1.length
  | _, _ => false

/-- A value as a reader gives it. -/
def Value.reply : Value → Reply
  | .uint8 val => .uint8 val
  | .int8 val => .int8 val
  | .uint16 val => .uint16 val
  | .int16 val => .int16 val
  | .uint32 val => .uint32 val
  | .int32 val => .int32 val
  | .uint64 val => .uint64 val
  | .int64 val => .int64 val
  | .data str => .data (UInt16.ofNat str.1.length) str.1
  | .block str => .block (UInt16.ofNat str.1.length) str.1

/-! ## On the stream that is shown -/

/-- The bytes of a value. -/
def Value.bytes : Value → List UInt8
  | .uint8 val => [val]
  | .int8 val => [val.toUInt8]
  | .uint16 val => machPut2 val
  | .int16 val => machPut2 val.toUInt16
  | .uint32 val => machPut4 val
  | .int32 val => machPut4 val.toUInt32
  | .uint64 val => machPut8 val
  | .int64 val => machPut8 val.toUInt64
  | .data str => dataBytes str.1
  | .block str => str.1

/-- The writer of a value. -/
def Value.write : Value → StreamM Unit
  | .uint8 val => machUint8Write val
  | .int8 val => machInt8Write val
  | .uint16 val => machUint16Write val
  | .int16 val => machInt16Write val
  | .uint32 val => machUint32Write val
  | .int32 val => machInt32Write val
  | .uint64 val => machUint64Write val
  | .int64 val => machInt64Write val
  | .data str => machDataWrite str.1
  | .block str => machBlockWrite str.1

/-- The reader that is called. -/
def Request.read : Request → StreamM Reply
  | .uint8 => .uint8 <$> machUint8Read
  | .int8 => .int8 <$> machInt8Read
  | .uint16 => .uint16 <$> machUint16Read
  | .int16 => .int16 <$> machInt16Read
  | .uint32 => .uint32 <$> machUint32Read
  | .int32 => .int32 <$> machInt32Read
  | .uint64 => .uint64 <$> machUint64Read
  | .int64 => .int64 <$> machInt64Read
  | .data size => (fun pair => .data pair.1 pair.2) <$> machDataRead size
  | .block size => (fun pair => .block pair.1 pair.2) <$> machBlockRead size

/-- **Every writer appends the bytes of its value.** -/
theorem writes_value (value : Value) : Writes value.write value.bytes := by
  cases value with
  | data str => exact writes_data str.1
  | _ => exact writes_machWrite _

/-- **The reader of a value gives the value** when its bytes come first. -/
theorem read_run {request : Request} {value : Value} (fits : request.fits value = true)
    {strm : BinStream} {rest : List UInt8} (within : strm.rsize ≤ strm.used)
    (starts : strm.unread = value.bytes ++ rest) :
    request.read.run strm = (value.reply, strm.advance value.bytes.length) := by
  cases value with
  | uint8 val =>
      cases request with
      | uint8 => exact ((reads_uint8 val).map _).run_eq starts
      | _ => cases fits
  | int8 val =>
      cases request with
      | int8 => exact ((reads_int8 val).map _).run_eq starts
      | _ => cases fits
  | uint16 val =>
      cases request with
      | uint16 => exact ((reads_uint16 val).map _).run_eq starts
      | _ => cases fits
  | int16 val =>
      cases request with
      | int16 => exact ((reads_int16 val).map _).run_eq starts
      | _ => cases fits
  | uint32 val =>
      cases request with
      | uint32 => exact ((reads_uint32 val).map _).run_eq starts
      | _ => cases fits
  | int32 val =>
      cases request with
      | int32 => exact ((reads_int32 val).map _).run_eq starts
      | _ => cases fits
  | uint64 val =>
      cases request with
      | uint64 => exact ((reads_uint64 val).map _).run_eq starts
      | _ => cases fits
  | int64 val =>
      cases request with
      | int64 => exact ((reads_int64 val).map _).run_eq starts
      | _ => cases fits
  | data str =>
      cases request with
      | data size =>
          have enough : str.1.length ≤ size := of_decide_eq_true fits
          have short : str.1.length < 2 ^ 16 := Nat.lt_of_le_of_lt str.2 (by decide)
          exact ((reads_data enough short).map _).run_eq starts
      | _ => cases fits
  | block str =>
      cases request with
      | block size =>
          obtain rfl : size = str.1.length := of_decide_eq_true fits
          have run := machBlockRead_run within (show strm.unread = str.1 ++ rest from starts)
          change (_ <$> machBlockRead str.1.length).run strm = _
          rw [StateT.run_map, run]
          rfl
      | _ => cases fits

/-! ## On the stream with pointers -/

namespace RawStream

variable (realloc : Realloc UInt8)

/-- The writer of a value. -/
def write : Value → RawStream → Option (RawStream × List Resize)
  | .uint8 val => machUint8Write realloc val
  | .int8 val => machInt8Write realloc val
  | .uint16 val => machUint16Write realloc val
  | .int16 val => machInt16Write realloc val
  | .uint32 val => machUint32Write realloc val
  | .int32 val => machInt32Write realloc val
  | .uint64 val => machUint64Write realloc val
  | .int64 val => machInt64Write realloc val
  | .data str => machDataWrite realloc str.1
  | .block str => machBlockWrite realloc str.1

/-- The reader that is called. -/
def read (request : Request) (strm : RawStream) : Option (Reply × RawStream) :=
  match request with
  | .uint8 => (machUint8Read strm).map (Prod.map .uint8 id)
  | .int8 => (machInt8Read strm).map (Prod.map .int8 id)
  | .uint16 => (machUint16Read strm).map (Prod.map .uint16 id)
  | .int16 => (machInt16Read strm).map (Prod.map .int16 id)
  | .uint32 => (machUint32Read strm).map (Prod.map .uint32 id)
  | .int32 => (machInt32Read strm).map (Prod.map .int32 id)
  | .uint64 => (machUint64Read strm).map (Prod.map .uint64 id)
  | .int64 => (machInt64Read strm).map (Prod.map .int64 id)
  | .data size => (machDataRead size strm).map (Prod.map (fun pair => .data pair.1 pair.2) id)
  | .block size => (machBlockRead size strm).map (Prod.map (fun pair => .block pair.1 pair.2) id)

theorem simulates_write (value : Value) : Simulates (write realloc value) value.write := by
  cases value with
  | data str => exact simulates_machDataWrite realloc str.1
  | _ => exact simulates_machWrite realloc _

/-- A reader whose result is put into another form. -/
theorem SimulatesRead.map {α β : Type} {read : RawStream → Option (α × RawStream)}
    {program : StreamM α} (simulates : SimulatesRead read program) (f : α → β) :
    SimulatesRead (fun raw => (read raw).map (Prod.map f id)) (f <$> program) := by
  intro raw strm views
  obtain ⟨after, got, shown⟩ := simulates raw strm views
  exact ⟨after, congrArg (Option.map (Prod.map f id)) got, shown⟩

theorem simulates_read (request : Request) : SimulatesRead (read request) request.read := by
  cases request with
  | uint8 => exact (simulates_machRead fun ptr => by rw [getD_take (by decide)]).map _
  | int8 => exact (simulates_machRead fun ptr => by rw [getD_take (by decide)]).map _
  | uint16 => exact simulates_machUint16Read.map _
  | int16 => exact (simulates_machRead fun ptr => by rw [machGet2_take]).map _
  | uint32 => exact (simulates_machRead machGet4_take).map _
  | int32 => exact (simulates_machRead fun ptr => by rw [machGet4_take]).map _
  | uint64 => exact (simulates_machRead machGet8_take).map _
  | int64 => exact (simulates_machRead fun ptr => by rw [machGet8_take]).map _
  | data size => exact (simulates_machDataRead size).map _
  | block size => exact (simulates_machBlockRead size).map _

end RawStream

/-! ## The queue -/

/-- A call of a writer or of a reader. -/
inductive Call where
  | write (value : Value)
  | read (request : Request)

/-- What a call shows: a call of `bin_stream_resize`, or what a reader gives. -/
inductive Effect where
  | resize (resize : Resize)
  | reply (reply : Reply)

/-- What a reader gives. -/
def Effect.reply? : Effect → Option Reply
  | .resize _ => none
  | .reply given => some given

/-- The calls on a stream. -/
def streamMachine (realloc : Realloc UInt8) : Machine RawStream Call Effect where
  step strm
    | .write value => (strm.write realloc value).map fun (strm, resizes) =>
        (strm, resizes.map .resize)
    | .read request => (strm.read request).map fun (reply, strm) => (strm, [.reply reply])

/-- The same calls on a queue of values. A reader takes the first value, if it is the one
that belongs to it. -/
def queueMachine : Machine (List Value) Call Reply where
  step
    | values, .write value => some (values ++ [value], [])
    | [], .read _ => none
    | value :: rest, .read request =>
        if request.fits value then some (rest, [value.reply]) else none

/-- The unread bytes of the stream are those of the values. -/
def Holds (values : List Value) (raw : RawStream) : Prop :=
  ∃ strm, raw.Views strm ∧ strm.rsize ≤ strm.used ∧ strm.unread = values.flatMap Value.bytes

variable (realloc : Realloc UInt8) {raw : RawStream} {values : List Value}

theorem Holds.write (holds : Holds values raw) (value : Value) :
    ∃ after resizes, raw.write realloc value = some (after, resizes) ∧
      Holds (values ++ [value]) after ∧ ∀ resize ∈ resizes, resize.Keeps := by
  obtain ⟨strm, views, within, unread⟩ := holds
  obtain ⟨after, resizes, written, shown, keeps⟩ :=
    RawStream.simulates_write realloc value raw strm views
  refine ⟨after, resizes, written, ⟨_, shown, ?_, ?_⟩, keeps⟩
  · rw [(writes_value value).rsize, used, (writes_value value).data, List.length_append]
    exact Nat.le_add_right_of_le within
  · rw [BinStream.unread, (writes_value value).rsize, (writes_value value).data,
      List.drop_append_of_le_length within, ← BinStream.unread, unread, List.flatMap_append,
      List.flatMap_singleton]

theorem Holds.read {value : Value} {rest : List Value} (holds : Holds (value :: rest) raw)
    {request : Request} (fits : request.fits value = true) :
    ∃ after, raw.read request = some (value.reply, after) ∧ Holds rest after := by
  obtain ⟨strm, views, within, unread⟩ := holds
  rw [List.flatMap_cons] at unread
  obtain ⟨after, got, shown⟩ := RawStream.simulates_read request raw strm views
  rw [read_run fits within unread] at got shown
  have short := congrArg List.length unread
  rw [BinStream.unread, List.length_drop, List.length_append] at short
  refine ⟨after, got, _, shown, ?_, ?_⟩
  · simp only [advance_rsize, used, advance_data] at within ⊢
    omega
  · exact show tape.unread (tape.advance _ strm) = _ from Tape.unread_after unread

/-- **A call that is possible on the queue is defined on the stream**, gives the same reply,
and keeps what is held. -/
theorem Holds.step (holds : Holds values raw) {call : Call} {values' : List Value}
    {replies : List Reply} (stepped : queueMachine.step values call = some (values', replies)) :
    ∃ after effects, (streamMachine realloc).step raw call = some (after, effects) ∧
      Holds values' after ∧ effects.filterMap Effect.reply? = replies ∧
      ∀ resize, Effect.resize resize ∈ effects → resize.Keeps := by
  cases call with
  | write value =>
      obtain ⟨rfl, rfl⟩ := Prod.mk.inj (Option.some.inj stepped)
      obtain ⟨after, resizes, written, held, keeps⟩ := holds.write realloc value
      refine ⟨after, resizes.map .resize, ?_, held, ?_, ?_⟩
      · change (raw.write realloc value).map _ = _
        rw [written]
        rfl
      · rw [List.filterMap_map]
        exact List.filterMap_eq_nil_iff.mpr fun _ _ => rfl
      · intro resize member
        obtain ⟨same, old, again⟩ := List.mem_map.mp member
        exact Effect.resize.inj again ▸ keeps same old
  | read request =>
      cases values with
      | nil => cases stepped
      | cons value rest =>
          change (if request.fits value then some (rest, [value.reply]) else none) = _ at stepped
          split_ifs at stepped with fits
          obtain ⟨rfl, rfl⟩ := Prod.mk.inj (Option.some.inj stepped)
          obtain ⟨after, got, held⟩ := holds.read fits
          refine ⟨after, [.reply value.reply], ?_, held, rfl, ?_⟩
          · change (raw.read request).map _ = _
            rw [got]
            rfl
          · intro resize member
            simp at member

/-- **The stream refines the queue**, in every sequence of writes and reads. -/
theorem refines (holds : Holds values raw) {calls : List Call} {values' : List Value}
    {replies : List Reply} (ran : queueMachine.run values calls = some (values', replies)) :
    ∃ after effects, (streamMachine realloc).run raw calls = some (after, effects) ∧
      Holds values' after ∧ effects.filterMap Effect.reply? = replies ∧
      ∀ resize, Effect.resize resize ∈ effects → resize.Keeps := by
  induction calls generalizing values raw replies with
  | nil =>
      obtain ⟨rfl, rfl⟩ := Prod.mk.inj (Option.some.inj ran)
      exact ⟨raw, [], rfl, holds, rfl, fun resize member => absurd member List.not_mem_nil⟩
  | cons call rest ih =>
      obtain ⟨next, first, more, stepped, onwards, rfl⟩ := Machine.run_cons.mp ran
      obtain ⟨middle, effects, done, held, rfl, keeps⟩ := holds.step realloc stepped
      obtain ⟨after, later, done', heldToo, rfl, keepsToo⟩ := ih held onwards
      refine ⟨after, effects ++ later, Machine.run_cons.mpr ⟨_, _, _, done, done', rfl⟩, heldToo,
        List.filterMap_append, fun resize member => ?_⟩
      exact (List.mem_append.mp member).elim (keeps resize) (keepsToo resize)

/-- A stream that was initialised holds nothing. -/
theorem holds_binStreamInit (data : ℕ) (mem : Memory UInt8) :
    Holds [] (RawStream.binStreamInit data mem) :=
  ⟨_, RawStream.views_binStreamInit data mem, Nat.le_refl _, rfl⟩

/-- **A stream is a queue from its initialisation on**: every sequence of calls that is one of
the empty queue is defined, and gives the same replies. -/
theorem refines_binStreamInit (data : ℕ) (mem : Memory UInt8) {calls : List Call}
    {values : List Value} {replies : List Reply}
    (ran : queueMachine.run [] calls = some (values, replies)) :
    ∃ after effects,
      (streamMachine realloc).run (RawStream.binStreamInit data mem) calls =
        some (after, effects) ∧
      Holds values after ∧ effects.filterMap Effect.reply? = replies ∧
      ∀ resize, Effect.resize resize ∈ effects → resize.Keeps :=
  refines realloc (holds_binStreamInit data mem) ran

/-! ## Reading back -/

/-- A stream that was rewound holds nothing, whatever its pointers were. -/
theorem holds_binStreamRewind (allocated : 0 < raw.size) :
    Holds [] (raw.binStreamRewind true) :=
  ⟨⟨[], raw.size, 0, allocated⟩,
    { size := rfl
      rsize := rfl
      used := rfl
      wptr := rfl
      rptr := rfl
      bytes := rfl
      used_le := Nat.zero_le _ }, Nat.le_refl _, rfl⟩

/-- Nothing is unread when nothing is held. -/
theorem Holds.rsize_eq (holds : Holds [] raw) : raw.rsize = raw.used := by
  obtain ⟨strm, views, within, unread⟩ := holds
  have all : strm.used ≤ strm.rsize := List.drop_eq_nil_iff.mp unread
  rw [views.rsize, views.used]
  exact Nat.le_antisymm within all

theorem Holds.used_le (holds : Holds values raw) : raw.used ≤ raw.size := by
  obtain ⟨strm, views, -⟩ := holds
  exact views.used_le

theorem queue_writes (values more : List Value) :
    queueMachine.run values (more.map .write) = some (values ++ more, []) := by
  induction more generalizing values with
  | nil => rw [List.append_nil]; rfl
  | cons value rest ih =>
      refine Machine.run_cons.mpr ⟨values ++ [value], [], [], rfl, ?_, rfl⟩
      rw [ih, List.append_assoc]
      rfl

theorem queue_reads {requests : List Request}
    (fit : List.Forall₂ (fun request value => request.fits value = true) requests values) :
    queueMachine.run values (requests.map .read) = some ([], values.map Value.reply) := by
  induction fit with
  | nil => rfl
  | @cons request value requests rest fits _ ih =>
      exact Machine.run_cons.mpr ⟨rest, [value.reply], _, if_pos fits, ih, rfl⟩

/-- **What is written to a rewound stream is read back.** For every list of values and the
calls that belong to them, the writes and the reads are defined, every reader gives its value,
all bytes are read in the end, and every call of `bin_stream_resize` keeps the bytes and the
offsets of both pointers. -/
theorem readBack (raw : RawStream) (allocated : 0 < raw.size) (values : List Value)
    (requests : List Request)
    (fit : List.Forall₂ (fun request value => request.fits value = true) requests values) :
    ∃ full last written read,
      (streamMachine realloc).run (raw.binStreamRewind true) (values.map .write) =
        some (full, written) ∧
      (∀ resize, Effect.resize resize ∈ written → resize.Keeps) ∧ full.used ≤ full.size ∧
      (streamMachine realloc).run full (requests.map .read) = some (last, read) ∧
      read.filterMap Effect.reply? = values.map Value.reply ∧ last.rsize = last.used := by
  obtain ⟨full, written, wrote, held, -, keeps⟩ :=
    refines realloc (holds_binStreamRewind allocated) (queue_writes [] values)
  obtain ⟨last, read, done, heldToo, replies, -⟩ :=
    refines realloc held (queue_reads fit)
  exact ⟨full, last, written, read, wrote, keeps, held.used_le, done, replies, heldToo.rsize_eq⟩

/-- Values of several kinds on a stream of one byte whose block moves when it grows. -/
theorem readBack_sample : ∃ full last written read,
    (streamMachine Realloc.moving).run
      (RawStream.binStreamRewind true ⟨fun _ => 0, 8, 1, 8, 0, 8, 0⟩)
      ([.uint8 7, .int16 (-2), .data ⟨[1, 2, 3], Nat.le_of_ble_eq_true rfl⟩,
        .block ⟨[4, 5], Nat.le_of_ble_eq_true rfl⟩, .int64 (-1)].map .write) =
      some (full, written) ∧
    (∀ resize, Effect.resize resize ∈ written → resize.Keeps) ∧ full.used ≤ full.size ∧
    (streamMachine Realloc.moving).run full
      ([.uint8, .int16, .data 3, .block 2, .int64].map .read) = some (last, read) ∧
    read.filterMap Effect.reply? =
      [.uint8 7, .int16 (-2), .data 3 [1, 2, 3], .block 2 [4, 5], .int64 (-1)] ∧
    last.rsize = last.used :=
  readBack Realloc.moving ⟨fun _ => 0, 8, 1, 8, 0, 8, 0⟩ (by decide)
    [.uint8 7, .int16 (-2), .data ⟨[1, 2, 3], Nat.le_of_ble_eq_true rfl⟩,
      .block ⟨[4, 5], Nat.le_of_ble_eq_true rfl⟩, .int64 (-1)]
    [.uint8, .int16, .data 3, .block 2, .int64]
    (.cons rfl (.cons rfl (.cons rfl (.cons rfl (.cons rfl .nil)))))

end MpVideo.Wire
