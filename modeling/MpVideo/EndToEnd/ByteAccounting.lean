import MpVideo.Receiver.PathReceiver
import MpVideo.Sender.QueueAccounting
import MpVideo.Wire.Truncation

/-!
# The size of a message

A message has three sizes: what the sender reports to its congestion controller
(`AddPacket`), what the receiver reports to its own (`OnReceivedPacket`), and the length of
the datagram. The two reports are computed from the size of the data and a constant, and
agree with each other (`reports_agree`).

The constant for a segment stands for a header with all numbers in their full width and
without the checksum. The encoder writes small numbers in half the width, so the datagram
has the reported size exactly when one of the three numbers of variable width is large.
-/

set_option autoImplicit false

namespace MpVideo.EndToEnd

open Wire

/-! ## What is reported -/

/-- `sizeof(sim_header_t)`: two bytes, two bytes of padding and a word. -/
def sizeofSimHeader : Nat := 8

/-- `sizeof(sim_pad_t)`: a word, two half words and the array. -/
def sizeofSimPad : Nat := 8 + paddingDataSize

/-- `header_len` of `SendPadding` and of `ProcessingMsg`, held in eight bits. -/
def headerLen : UInt8 := UInt8.ofNat (sizeofSimHeader + sizeofSimPad)

/-- The size that `TimeToSendPacket` gives to `AddPacket`. -/
def addedSegment (seg : SimSegment) : Nat := seg.data.size + simSegmentHeaderSize

/-- The size that `SendPadding` gives to `AddPacket`. -/
def addedPadding (body : Payload paddingDataSize) : Nat := headerLen.toNat + body.size

/-- The size that the receiver gives to `OnReceivedPacket` for a decoded message: in
`OnReceiveSegment` or in `ProcessingMsg`. -/
def receivedOverhead : SimBody → Option Nat
  | .seg body => some (body.data.size + simSegmentHeaderSize)
  | .pad body => some (body.data.size + headerLen.toNat)
  | _ => none

/-- The message that the receiver decodes from a datagram. -/
def decoded (strm : BinStream) (datagram : List UInt8) : Option SimBody :=
  match simDecodeHeader (loaded datagram strm) with
  | some (some header, inBody) => (simDecodeMsg inBody header).1
  | _ => none

/-- The size that the receiver reports for a datagram. -/
def receivedSize (strm : BinStream) (datagram : List UInt8) : Option Nat :=
  (decoded strm datagram).bind receivedOverhead

/-- The only datagram has the size that both ends report. -/
def SizesAgree (strm : BinStream) (datagrams : List (List UInt8)) (added : Nat) : Prop :=
  ∃ datagram, datagrams = [datagram] ∧ receivedSize strm datagram = some added ∧
    datagram.length = added

/-- How many of the three numbers are written in their full width. -/
def wideFields (seg : SimSegment) : Nat :=
  (if seg.packetId > 65535 then 1 else 0) + (if seg.fid > 65535 then 1 else 0) +
    if seg.total > 255 then 1 else 0

/-! ## What is decoded -/

/-- The segment as it is encoded: a small total leaves one byte for the index. -/
def narrowed (seg : SimSegment) : SimSegment :=
  { seg with index := if seg.total > 255 then seg.index else seg.index.toUInt8.toUInt16 }

theorem bodyBytes_narrowed (seg : SimSegment) : bodyBytes (.seg (narrowed seg)) =
    bodyBytes (.seg seg) := by
  have position : positionBytes (narrowed seg).index seg.total =
      positionBytes seg.index seg.total := by
    rw [positionBytes, positionBytes, narrowed]
    split_ifs with wide
    · rfl
    · rw [UInt8.toUInt8_toUInt16]
  change segmentBytes (narrowed seg) = segmentBytes seg
  rw [segmentBytes, segmentBytes]
  exact congrArg (fun bytes => [segmentMask seg] ++ ([seg.payloadType] ++
    (shortIdBytes seg.packetId ++ (shortIdBytes seg.fid ++ (machPut4 seg.timestamp ++
      (bytes ++ (machPut2 seg.sendTs ++ (machPut2 seg.transportSeq ++
        dataBytes seg.data.bytes)))))))) position

theorem narrowed_legal (seg : SimSegment) : SimBody.Legal (.seg (narrowed seg)) := by
  intro small
  have narrow : ¬ seg.total > 255 := UInt16.not_lt.mpr small
  rw [narrowed]
  simp only [if_neg narrow]
  rw [UInt16.le_iff_toNat_le, UInt8.toNat_toUInt16]
  exact Nat.le_of_lt_succ (UInt8.toNat_lt _)

theorem decoded_message (strm : BinStream) (header : SimHeader) {body : SimBody}
    (legal : body.Legal) (mid : header.mid = body.mid.toUInt8) :
    decoded strm (messageBytes header body) = some body.received := by
  have bytes : (loaded (messageBytes header body) strm).data = messageBytes header body := rfl
  rw [decoded, simDecodeHeader_message bytes rfl]
  simp only [simDecodeMsg_message bytes rfl mid legal]

/-! ## The sizes agree -/

/-- Whatever its fields are, a segment arrives with its data. -/
theorem receivedSize_segment (strm : BinStream) (header : SimHeader)
    (mid : header.mid = MsgId.simSeg.toUInt8) (seg : SimSegment) :
    receivedSize strm (messageBytes header (.seg seg)) = some (addedSegment seg) := by
  have same : messageBytes header (.seg seg) = messageBytes header (.seg (narrowed seg)) := by
    rw [messageBytes, messageBytes, messageCrc, messageCrc, contentBytes, contentBytes,
      bodyBytes_narrowed]
  rw [receivedSize, same, decoded_message strm header (narrowed_legal seg) mid]
  rfl

theorem length_segmentMessage (header : SimHeader) (seg : SimSegment) :
    (messageBytes header (.seg seg)).length + 2 = addedSegment seg + 2 * wideFields seg := by
  rw [length_messageBytes]
  change (segmentBytes seg).length + 10 + 2 = _
  rw [length_segmentBytes, wideFields, addedSegment, simSegmentHeaderSize, simHeaderSize]
  split_ifs <;> omega

/-- **Both ends report the same size**, of a segment and of a padding message, whatever
their fields are. For a segment it is the length of the datagram exactly when one number is
written in its full width. -/
theorem reports_agree (path : Sender.PathSender) (now ts : UInt32) (firstTs : Int64)
    (seg : SimSegment) (body : Payload paddingDataSize) (strm : BinStream) :
    (∃ datagram, (path.sendSegment now firstTs seg).2 = [datagram] ∧
      receivedSize strm datagram = some (addedSegment seg) ∧
      datagram.length + 2 = addedSegment seg + 2 * wideFields seg ∧
      (SizesAgree strm [datagram] (addedSegment seg) ↔ wideFields seg = 1)) ∧
    ∃ datagram, (path.sendPadding body ts).2 = [datagram] ∧
      receivedSize strm datagram = some (addedPadding body) := by
  constructor
  · obtain ⟨sendTs, after, sent⟩ := Sender.PathSender.sendSegment_eq now firstTs seg path
    have length := length_segmentMessage ⟨path.pid, MsgId.simSeg.toUInt8, path.uid⟩
      { seg with sendTs }
    have size := receivedSize_segment strm ⟨path.pid, MsgId.simSeg.toUInt8, path.uid⟩ rfl
      { seg with sendTs }
    refine ⟨_, congrArg Prod.snd sent, size, length, ?_⟩
    change _ + 2 = addedSegment seg + 2 * wideFields seg at length
    constructor
    · rintro ⟨datagram, only, -, equal⟩
      obtain rfl := List.singleton_inj.mp only
      omega
    · intro one
      exact ⟨_, rfl, size, by omega⟩
  · refine ⟨_, congrArg (fun bytes => [bytes]) (simEncodeMsg_data _ _ _), ?_⟩
    have legal : SimBody.Legal (.pad ⟨ts, path.transSeq, body⟩) := trivial
    rw [receivedSize, decoded_message strm ⟨path.pid, MsgId.simPad.toUInt8, path.uid⟩ legal rfl]
    exact congrArg some (Nat.add_comm ..)

/-- The first segment of a stream, with small numbers, has two bytes less than reported. -/
theorem firstSegment_shorter : ¬ SizesAgree binStreamInit
    (({ pid := 1, uid := 7, paceMode := .noWebrtc } : Sender.PathSender).sendSegment 0 0
      ⟨1, 1, 0, 0, 1, 1, 0, 1, 0, 0, .empty⟩).2
    (addedSegment ⟨1, 1, 0, 0, 1, 1, 0, 1, 0, 0, .empty⟩) := by
  rintro ⟨datagram, only, -, equal⟩
  obtain ⟨sendTs, after, sent⟩ := Sender.PathSender.sendSegment_eq 0 0
    ⟨1, 1, 0, 0, 1, 1, 0, 1, 0, 0, .empty⟩ { pid := 1, uid := 7, paceMode := .noWebrtc }
  obtain rfl := List.singleton_inj.mp (only.symm.trans (congrArg Prod.snd sent))
  have length := length_segmentMessage ⟨1, MsgId.simSeg.toUInt8, 7⟩
    ⟨1, 1, 0, 0, 1, 1, 0, 1, sendTs, 0, .empty⟩
  have differs := length.symm.trans (congrArg (· + 2) equal)
  cases differs

end MpVideo.EndToEnd
