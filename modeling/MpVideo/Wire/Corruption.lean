import MpVideo.Lib.TableCrc
import MpVideo.Wire.RoundTrip
import Mathlib.Data.Fintype.EquivFin
import Mathlib.Data.List.Perm.Subperm

/-!
# Corrupted messages

The table of `cf_crc32.c` has every byte as the highest byte of an entry, so `crc32` is a
check that tells messages apart that differ in four successive bytes (`crc32_ne_of_burst`).
A frame in which such a burst, or the stored checksum, has changed is therefore rejected,
whatever the length of its body (`corruption_rejected`).
-/

set_option autoImplicit false

namespace MpVideo.Wire

/-! ## The checksum -/

/-- The table of `crc32` over bit vectors. -/
def crcTable (index : BitVec 8) : BitVec 32 := crc32Tab[index.toNat]!.toBitVec

/-- The set of the highest bytes of the entries, as the bits of a number. -/
def highBytes : Nat :=
  crc32Tab.toList.foldl (fun mask entry => mask ||| 1 <<< (entry.toNat / 16777216)) 0

theorem testBit_foldl_or {α : Type} (number : α → Nat) {entries : List α} {mask bit : Nat}
    (marked : (entries.foldl (fun mask entry => mask ||| 1 <<< number entry) mask).testBit bit) :
    mask.testBit bit ∨ ∃ entry ∈ entries, number entry = bit := by
  induction entries generalizing mask with
  | nil => exact .inl marked
  | cons entry rest ih =>
      rcases ih marked with here | ⟨other, member, number⟩
      · rw [Nat.testBit_or, Bool.or_eq_true, Nat.one_shiftLeft, Nat.testBit_two_pow,
          decide_eq_true_iff] at here
        exact here.imp_right fun same => ⟨entry, List.mem_cons_self, same⟩
      · exact .inr ⟨other, List.mem_cons_of_mem _ member, number⟩

theorem exists_getElem!_of_mem {table : Array UInt32} {entry : UInt32}
    (member : entry ∈ table.toList) : ∃ i, i < table.size ∧ table[i]! = entry := by
  obtain ⟨i, inside, found⟩ := Array.mem_iff_getElem.mp (Array.mem_def.mpr member)
  exact ⟨i, inside, (getElem!_pos table i inside).trans found⟩

/-- Every byte is the highest byte of an entry. -/
theorem exists_highByte (byte : BitVec 8) :
    ∃ index : BitVec 8, (crcTable index >>> 24).setWidth 8 = byte := by
  have all : highBytes = 1 <<< 256 - 1 := by decide +kernel
  have marked : highBytes.testBit byte.toNat := by
    rw [all, Nat.one_shiftLeft, Nat.testBit_two_pow_sub_one]
    exact decide_eq_true byte.isLt
  rw [highBytes] at marked
  rcases testBit_foldl_or _ marked with absent | ⟨entry, member, high⟩
  · simp at absent
  · obtain ⟨i, inside, rfl⟩ := exists_getElem!_of_mem member
    have size : crc32Tab.size = 2 ^ 8 := by decide +kernel
    refine ⟨BitVec.ofNat 8 i, ?_⟩
    apply BitVec.eq_of_toNat_eq
    rw [crcTable, BitVec.toNat_ofNat, Nat.mod_eq_of_lt (size ▸ inside), BitVec.toNat_setWidth,
      BitVec.toNat_ushiftRight, Nat.shiftRight_eq_div_pow]
    have same : crc32Tab[i]!.toBitVec.toNat / 2 ^ 24 = byte.toNat := high
    rw [same, Nat.mod_eq_of_lt byte.isLt]

theorem crcTable_separates : TableCrc.Separates crcTable := by
  have surjective : Function.Surjective fun index => (crcTable index >>> 24).setWidth 8 :=
    exists_highByte
  have : Finite (BitVec 8) := Finite.of_injective BitVec.toFin fun _ _ => BitVec.eq_of_toFin_eq
  exact (Finite.injective_iff_surjective.mpr surjective).of_comp
    (f := (BitVec.setWidth 8 : BitVec 32 → BitVec 8))

theorem crc32Step_eq (crc : UInt32) (p : UInt8) :
    (crc32Step crc p).toBitVec = TableCrc.step crcTable crc.toBitVec p.toBitVec := by
  have index : ((crc ^^^ p.toUInt32) &&& 0xFF).toNat =
      ((crc.toBitVec ^^^ p.toBitVec.setWidth 32).setWidth 8).toNat := by
    rw [BitVec.toNat_setWidth]
    exact Nat.and_two_pow_sub_one_eq_mod _ 8
  rw [crc32Step, TableCrc.step, crcTable, ← index]
  rfl

theorem crc32_eq (crc : UInt32) (buf : List UInt8) :
    (crc32 crc buf).toBitVec =
      TableCrc.feed crcTable (crc ^^^ ~~~0).toBitVec (buf.map UInt8.toBitVec) ^^^
        (~~~0 : UInt32).toBitVec := by
  have fed : ∀ register : UInt32, (buf.foldl crc32Step register).toBitVec =
      TableCrc.feed crcTable register.toBitVec (buf.map UInt8.toBitVec) := by
    induction buf with
    | nil => exact fun _ => rfl
    | cons p rest ih =>
        intro register
        rw [List.foldl_cons, ih, crc32Step_eq]
        rfl
  rw [crc32, UInt32.toBitVec_xor, fed]

/-- **The checksum tells apart what differs in four successive bytes.** -/
theorem crc32_ne_of_burst (crc : UInt32) {burst other : List UInt8}
    (length : burst.length = other.length) (fits : burst.length ≤ 4) (differ : burst ≠ other)
    (front back : List UInt8) :
    crc32 crc (front ++ burst ++ back) ≠ crc32 crc (front ++ other ++ back) := by
  intro same
  have registers := congrArg UInt32.toBitVec same
  rw [crc32_eq, crc32_eq, BitVec.xor_left_inj] at registers
  simp only [List.map_append] at registers
  refine TableCrc.feed_ne_of_burst crcTable_separates _ ?_ ?_ ?_ _ _ registers
  · rw [List.length_map, List.length_map, length]
  · rw [List.length_map]
    omega
  · intro equal
    exact differ (List.map_injective_iff.mpr (fun _ _ => UInt8.eq_of_toBitVec_eq) equal)

/-! ## Frames -/

/-- `sim_encode_msg` on a message id that its switch does not know: no body is written. -/
def simEncodeNoBody (strm : BinStream) (header : SimHeader) : BinStream :=
  let strm := binStreamRewind true strm
  let strm := ((simEncodeHeader header).run strm).2
  ((machUint32Write (crc32 crcVal strm.data)).run strm).2

/-- What `sim_encode_msg` leaves in a stream. -/
inductive Encoded : List UInt8 → Prop where
  | message (strm : BinStream) (header : SimHeader) (body : SimBody) :
      Encoded (simEncodeMsg strm header body).data
  | noBody (strm : BinStream) (header : SimHeader) (unknown : MsgId.ofUInt8? header.mid = none) :
      Encoded (simEncodeNoBody strm header).data

/-- `sim_decode_header` with its return value and the header structure of the caller. -/
def simDecodeHeaderInto (strm : BinStream) (header : SimHeader) :
    Option (Int32 × SimHeader × BinStream) :=
  (simDecodeHeader strm).map fun (decoded, after) =>
    (if decoded.isSome then 0 else -1, decoded.getD header, after)

/-- Two byte strings differ at most in the bytes from `start` up to `start + count`. -/
def DiffersWithin (start count : Nat) (frame other : List UInt8) : Prop :=
  ∀ i, frame[i]? ≠ other[i]? → start ≤ i ∧ i < start + count

/-- A frame ends with the checksum of the bytes in front of it. -/
theorem Encoded.trailer {frame : List UInt8} (encoded : Encoded frame) :
    ∃ content, frame = content ++ machPut4 (crc32 crcVal content) := by
  cases encoded with
  | message strm header body => exact ⟨contentBytes header body, simEncodeMsg_data strm header body⟩
  | noBody strm header unknown =>
      have content := (writes_header header).data (binStreamRewind true strm)
      refine ⟨headerBytes header, ?_⟩
      change ((machUint32Write _).run _).2.data = _
      rw [machUint32Write, (writes_machWrite _).data, content]
      rfl

/-- Different bytes are different numbers. -/
theorem machGet4_injective {bytes other : List UInt8} (four : bytes.length = 4)
    (length : other.length = 4) (same : machGet4 bytes = machGet4 other) : bytes = other := by
  obtain ⟨a, b, c, d, rfl⟩ := List.length_eq_four.mp four
  obtain ⟨a', b', c', d', rfl⟩ := List.length_eq_four.mp length
  have numbers := congrArg UInt32.toNat same
  simp [machGet4, Nat.shiftLeft_eq] at numbers
  have bounds := And.intro a.toNat_lt a'.toNat_lt
  have bounds' := And.intro b.toNat_lt b'.toNat_lt
  have bounds'' := And.intro c.toNat_lt c'.toNat_lt
  have bounds''' := And.intro d.toNat_lt d'.toNat_lt
  simp only [List.cons.injEq, and_true, ← UInt8.toNat_inj]
  omega

/-- The bytes in front of the window and behind it are the same. -/
theorem DiffersWithin.split {start count : Nat} {frame other : List UInt8}
    (confined : DiffersWithin start count frame other) :
    other.take start = frame.take start ∧
      other.drop (start + count) = frame.drop (start + count) := by
  have same : ∀ i, ¬ (start ≤ i ∧ i < start + count) → other[i]? = frame[i]? := by
    intro i outside
    by_contra differ
    exact outside (confined i (Ne.symm differ))
  constructor
  · apply List.ext_getElem?
    intro i
    rw [List.getElem?_take, List.getElem?_take]
    split_ifs with front
    · exact same i (by omega)
    · rfl
  · apply List.ext_getElem?
    intro i
    rw [List.getElem?_drop, List.getElem?_drop]
    exact same _ (by omega)

theorem DiffersWithin.take {start count : Nat} {frame other : List UInt8}
    (confined : DiffersWithin start count frame other) (n : Nat) :
    DiffersWithin start count (frame.take n) (other.take n) := by
  intro i differ
  rw [List.getElem?_take, List.getElem?_take] at differ
  split_ifs at differ
  · exact confined i differ
  · exact absurd rfl differ

/-- The two byte strings differ in a burst. -/
theorem DiffersWithin.burst {start count : Nat} {frame other : List UInt8}
    (confined : DiffersWithin start count frame other)
    (sameLength : other.length = frame.length) (inside : start + count ≤ frame.length) :
    ∃ front burst burst' back, frame = front ++ burst ++ back ∧ other = front ++ burst' ++ back ∧
      burst.length = count ∧ burst'.length = count := by
  obtain ⟨front, back⟩ := confined.split
  have parts : ∀ bytes : List UInt8, bytes =
      bytes.take start ++ (bytes.drop start).take count ++ bytes.drop (start + count) := by
    intro bytes
    rw [List.append_assoc, ← List.drop_drop, List.take_append_drop, List.take_append_drop]
  refine ⟨frame.take start, (frame.drop start).take count, (other.drop start).take count,
    frame.drop (start + count), parts frame, ?_, ?_, ?_⟩
  · rw [← front, ← back]
    exact parts other
  · rw [List.length_take, List.length_drop]
    omega
  · rw [List.length_take, List.length_drop]
    omega

/-- A wrong checksum is all that `sim_decode_header` looks at. -/
theorem simDecodeHeaderInto_differs {strm : BinStream} (enough : 4 ≤ strm.used)
    (differs : machGet4 (strm.data.drop (strm.used - 4)) ≠
      crc32 crcVal (strm.data.take (strm.used - 4))) (header : SimHeader) :
    simDecodeHeaderInto strm header = some (-1, header, strm) := by
  rw [simDecodeHeaderInto, simDecodeHeader, if_neg (Nat.not_lt.mpr enough)]
  simp only [if_neg differs]
  rfl

/-- **A corrupted frame is rejected**: `sim_decode_header` returns `-1` and leaves the
header as it is, if what has changed lies in four successive bytes of header and body or in
the checksum. -/
theorem corruption_rejected {frame other : List UInt8} (encoded : Encoded frame)
    (sameLength : other.length = frame.length) (changed : other ≠ frame)
    (confined : (∃ start, start + 4 ≤ frame.length - 4 ∧ DiffersWithin start 4 frame other) ∨
      DiffersWithin (frame.length - 4) 4 frame other)
    {strm : BinStream} (received : strm.data = other) (header : SimHeader) :
    simDecodeHeaderInto strm header = some (-1, header, strm) := by
  subst received
  obtain ⟨content, rfl⟩ := encoded.trailer
  rw [List.length_append, length_machPut4] at sameLength
  rw [List.length_append, length_machPut4, Nat.add_sub_cancel] at confined
  have used : strm.used = content.length + 4 := sameLength
  refine simDecodeHeaderInto_differs (by omega) ?_ header
  rw [used, Nat.add_sub_cancel]
  have whole := List.take_append_drop content.length strm.data
  rcases confined with ⟨start, inside, confined⟩ | confined
  · -- the checksum is the old one, and the content has a new one
    obtain ⟨front, back⟩ := confined.split
    have trailer : strm.data.drop content.length = machPut4 (crc32 crcVal content) := by
      have behind := congrArg (List.drop (content.length - (start + 4))) back
      rwa [List.drop_drop, List.drop_drop, Nat.add_sub_cancel' inside, List.drop_left] at behind
    have short := confined.take content.length
    rw [List.take_left] at short
    obtain ⟨first, burst, burst', last, contentEq, receivedEq, length, length'⟩ :=
      short.burst (by rw [List.length_take]; omega) inside
    rw [trailer, ← List.append_nil (machPut4 _), machGet4_put, receivedEq]
    nth_rewrite 1 [contentEq]
    refine crc32_ne_of_burst crcVal (length.trans length'.symm) length.le ?_ first last
    rintro rfl
    exact changed (by rw [← whole, trailer, receivedEq, ← contentEq])
  · -- the content is the old one, and its checksum is no longer there
    obtain ⟨front, -⟩ := confined.split
    rw [List.take_left] at front
    rw [front]
    intro same
    apply changed
    rw [← whole, front]
    congr 1
    apply machGet4_injective (by rw [List.length_drop]; omega) (length_machPut4 _)
    rw [same, ← List.append_nil (machPut4 _), machGet4_put]

/-- A ping as it is sent. -/
def pingFrame : List UInt8 :=
  (simEncodeMsg binStreamInit ⟨1, MsgId.simPing.toUInt8, 7⟩ (.ping ⟨5⟩)).data

/-- The ping arrives with another fourth byte. -/
theorem corruption_rejected_ping :
    simDecodeHeaderInto { binStreamInit with data := pingFrame.set 3 9 } ⟨0, 0, 0⟩ =
      some (-1, ⟨0, 0, 0⟩, { binStreamInit with data := pingFrame.set 3 9 }) := by
  have frame : pingFrame = 1 :: MsgId.simPing.toUInt8 :: 0 :: 0 :: 0 :: 7 ::
      (machPut8 5 ++ machPut4 (messageCrc ⟨1, MsgId.simPing.toUInt8, 7⟩ (.ping ⟨5⟩))) :=
    simEncodeMsg_data _ _ _
  have encoded : Encoded pingFrame := .message _ _ _
  refine corruption_rejected encoded List.length_set ?_ (.inl ⟨3, ?_, ?_⟩) rfl ⟨0, 0, 0⟩
  · intro same
    rw [frame] at same
    have fourth := congrArg (·.getD 3 0) same
    cases fourth
  · rw [frame]
    decide
  · intro i differ
    rw [List.getElem?_set] at differ
    split_ifs at differ with here
    · omega
    · omega
    · exact absurd rfl differ

end MpVideo.Wire
