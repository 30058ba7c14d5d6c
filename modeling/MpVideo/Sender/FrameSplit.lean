import MpVideo.Wire.Proto
import Mathlib.Algebra.GroupWithZero.Nat
import Mathlib.Data.List.SplitLengths

/-!
# Splitting a frame into segments

`FrameSplit` of `mpcommon.cc` computes the sizes of the pieces of a frame, and
`SendVideo` cuts the bytes of the frame accordingly and numbers the pieces. The
pieces in order are the frame again (`flatten_splits`).
-/

set_option autoImplicit false

namespace MpVideo.Sender

open Wire

/-- `MAX_SPLIT_NUMBER`. -/
def maxSplitNumber : Nat := 1024

/-- `FrameSplit`: the list of the sizes it stores. -/
def frameSplit (size : Nat) : List Nat :=
  if size ≤ simVideoSize then [size]
  else
    List.replicate (size / simVideoSize) simVideoSize ++
      if size % simVideoSize > 0 then [size % simVideoSize] else []

theorem sum_frameSplit (size : Nat) : (frameSplit size).sum = size := by
  rw [frameSplit]
  split_ifs with one rest
  · exact List.sum_singleton
  · rw [List.sum_append, List.sum_replicate_nat, List.sum_singleton, Nat.mul_comm]
    exact Nat.div_add_mod size simVideoSize
  · rw [List.append_nil, List.sum_replicate_nat, Nat.mul_comm]
    have := Nat.div_add_mod size simVideoSize
    omega

theorem frameSplit_le {size n : Nat} (member : n ∈ frameSplit size) : n ≤ simVideoSize := by
  have remainder := Nat.mod_lt size (show simVideoSize > 0 by decide)
  rw [frameSplit] at member
  split_ifs at member with one rest
  · exact List.mem_singleton.mp member ▸ one
  · cases List.mem_append.mp member with
    | inl full => exact Nat.le_of_eq (List.eq_of_mem_replicate full)
    | inr last => exact List.mem_singleton.mp last ▸ Nat.le_of_lt remainder
  · rw [List.append_nil] at member
    exact Nat.le_of_eq (List.eq_of_mem_replicate member)

theorem length_frameSplit_pos (size : Nat) : 0 < (frameSplit size).length := by
  rw [frameSplit]
  split_ifs with one rest
  · exact Nat.one_pos
  · simp
  · have large : simVideoSize ≤ size := by omega
    simpa using Nat.div_pos large (by decide)

theorem length_frameSplit_le {size : Nat} (short : size / simVideoSize < maxSplitNumber) :
    (frameSplit size).length ≤ maxSplitNumber := by
  rw [frameSplit]
  split_ifs with one rest
  · simp [maxSplitNumber]
  · simp only [List.length_append, List.length_replicate, List.length_singleton]
    omega
  · simp only [List.append_nil, List.length_replicate]
    omega

/-- What is passed to `SendVideo`, within the bound it asserts. -/
structure Frame where
  payloadType : UInt8
  ftype : Int32
  data : List UInt8
  short : data.length / simVideoSize < maxSplitNumber

namespace Frame

/-- The pieces of a frame. -/
def splits (frame : Frame) : List (List UInt8) :=
  (frameSplit frame.data.length).splitLengths frame.data

/-- **The pieces in order are the frame.** -/
theorem flatten_splits (frame : Frame) : frame.splits.flatten = frame.data :=
  List.flatten_splitLengths _ _ (Nat.le_of_eq (sum_frameSplit _).symm)

theorem splits_le {frame : Frame} {piece : List UInt8} (member : piece ∈ frame.splits) :
    piece.length ≤ simVideoSize :=
  List.length_mem_splitLengths _ _ _ (fun _ => frameSplit_le) piece member

theorem length_splits_pos (frame : Frame) : 0 < frame.splits.length := by
  rw [splits, List.length_splitLengths]
  exact length_frameSplit_pos _

theorem length_splits_le (frame : Frame) : frame.splits.length ≤ maxSplitNumber := by
  rw [splits, List.length_splitLengths]
  exact length_frameSplit_le frame.short

/-- The number of pieces, as `FrameSplit` returns it. -/
def total (frame : Frame) : UInt16 := UInt16.ofNat frame.splits.length

theorem toNat_total (frame : Frame) : frame.total.toNat = frame.splits.length := by
  have bounded := frame.length_splits_le
  rw [total, UInt16.toNat_ofNat', Nat.mod_eq_of_lt]
  exact Nat.lt_of_le_of_lt bounded (by decide)

/-- The segment that carries a piece. -/
def segment (fid timestamp : UInt32) (frame : Frame) (piece : List UInt8 × Nat) : SimSegment where
  packetId := 0
  fid := fid
  timestamp := timestamp
  index := UInt16.ofNat piece.2
  total := frame.total
  ftype := frame.ftype.toUInt32.toUInt8
  payloadType := frame.payloadType
  remb := 1
  sendTs := 0
  transportSeq := 0
  data := .clip simVideoSize piece.1

/-- The segments that `SendVideo` makes of a frame. -/
def segments (fid timestamp : UInt32) (frame : Frame) : List SimSegment :=
  frame.splits.zipIdx.map (frame.segment fid timestamp)

end Frame

/-! ## Segments of a frame -/

/-- The segment carries a piece of the frame: which one, is its index. -/
structure Carries (fid : UInt32) (frame : Frame) (seg : SimSegment) : Prop where
  fid_eq : seg.fid = fid
  total_eq : seg.total = frame.total
  ftype_eq : seg.ftype &&& 0x01 = frame.ftype.toUInt32.toUInt8 &&& 0x01
  piece : frame.splits[seg.index.toNat]? = some seg.data.bytes

theorem carries_segments {fid timestamp : UInt32} {frame : Frame} {seg : SimSegment}
    (member : seg ∈ frame.segments fid timestamp) : Carries fid frame seg := by
  obtain ⟨⟨piece, i⟩, pieceAt, rfl⟩ := List.mem_map.mp member
  have found : frame.splits[i]? = some piece := List.mk_mem_zipIdx_iff_getElem?.mp pieceAt
  have small : i < frame.splits.length := (List.getElem?_eq_some_iff.mp found).1
  have bounded : piece.length ≤ simVideoSize := Frame.splits_le (List.mem_of_getElem? found)
  have index : (UInt16.ofNat i).toNat = i := by
    have := frame.length_splits_le
    rw [UInt16.toNat_ofNat', Nat.mod_eq_of_lt]
    exact Nat.lt_of_lt_of_le small (Nat.le_trans this (by decide))
  refine ⟨rfl, rfl, rfl, ?_⟩
  change frame.splits[(UInt16.ofNat i).toNat]? = some (piece.take simVideoSize)
  rw [index, found, List.take_of_length_le bounded]

/-- The index of a segment of a frame is below its total. -/
theorem Carries.index_lt {fid : UInt32} {frame : Frame} {seg : SimSegment}
    (carries : Carries fid frame seg) : seg.index.toNat < seg.total.toNat := by
  rw [carries.total_eq, frame.toNat_total]
  exact (List.getElem?_eq_some_iff.mp carries.piece).1

end MpVideo.Sender
