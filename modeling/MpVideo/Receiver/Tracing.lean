import MpVideo.Receiver.MultipathReceiver

/-!
# Tracing and delivery

A frame carries two stamps of its sending time. `DeliverToCache` sets them only if
a frame trace callback is registered, but `CheckDeliverFrame` reads them to decide
whether an incomplete frame has become too old. Without the callback both are zero,
and the age of a frame is the simulated time itself.

Two receivers that differ in the callback alone are followed through the same
events. Removing callback and stamps (`untraced`) commutes with every member
function as long as the stamps do not decide a delivery (`StampsAgree`); where they
do, one receiver forwards a frame that the other keeps. Hence the callback leaves
the forwarded frames alone if and only if the stamps never decide
(`forwarded_same_iff`).
-/

set_option autoImplicit false

namespace MpVideo.Receiver

open Wire

/-- A frame handed to the sink: number, bytes, received and total segments. -/
structure Forwarded where
  fid : UInt32
  data : List UInt8
  recv : UInt32
  total : UInt32
  deriving DecidableEq

/-- What the sink sees of a call. -/
def forwarded : CacheCall → Option Forwarded
  | .forwardUp fid data recv total => some ⟨fid, data, recv, total⟩
  | _ => none

/-- Every call but the report of a frame. -/
def notFrameInfo : CacheCall → Bool
  | .frameInfo .. => false
  | _ => true

/-- Calls without the reports of frames. -/
def hideInfo (calls : List CacheCall) : List CacheCall := calls.filter notFrameInfo

@[simp] theorem hideInfo_append (first second : List CacheCall) :
    hideInfo (first ++ second) = hideInfo first ++ hideInfo second :=
  List.filter_append ..

theorem forwarded_hideInfo (calls : List CacheCall) :
    (hideInfo calls).filterMap forwarded = calls.filterMap forwarded := by
  induction calls with
  | nil => rfl
  | cons call rest ih =>
      cases call with
      | forwardUp fid data recv total => exact congrArg (⟨fid, data, recv, total⟩ :: ·) ih
      | consume | gap | frameInfo | recvBufLen => exact ih

namespace VideoFrame

/-! ## Frames without stamps -/

/-- The frame without the two stamps. -/
def unstamp (frame : VideoFrame) : VideoFrame :=
  { frame with frameFirstTs := 0, frameTimestamp := 0 }

/-- Without stamps, the age of a frame is the time. -/
theorem age_unstamp (now : UInt32) (frame : VideoFrame) : frame.unstamp.age now = now := by
  have none : (0 : Int64) + (0 : UInt32).toUInt64.toInt64 = 0 := by decide
  change (now.toUInt64.toInt64 - (0 + (0 : UInt32).toUInt64.toInt64)).toUInt64.toUInt32 = now
  rw [none, Int64.sub_zero, UInt64.toUInt64_toInt64, UInt32.toUInt32_toUInt64]

theorem unstamp_stamp (env : CacheEnv) (seg : SimSegment) (frame : VideoFrame) :
    (frame.stamp true env seg).unstamp = frame.unstamp.stamp false env seg := by
  by_cases first : frame.firstTs = 0
  · have first' : frame.unstamp.firstTs = 0 := first
    rw [stamp, stamp, if_pos first, if_pos first']
    rfl
  · have later : ¬ frame.unstamp.firstTs = 0 := first
    rw [stamp, stamp, if_neg first, if_neg later]

theorem unstamp_place (index : UInt16) (packet : VideoPacket) (now : UInt32)
    (frame : VideoFrame) :
    (frame.place index packet now).unstamp = frame.unstamp.place index packet now :=
  rfl

theorem unstamp_await (env : CacheEnv) (frame : VideoFrame) :
    (frame.await env).unstamp = frame.unstamp.await env := by
  rw [await, await]
  split_ifs with waits waits' waits'
  · rfl
  · exact absurd waits waits'
  · exact absurd waits' waits
  · rfl

/-- The stamps do not decide whether the frame is too old: either it does not
matter, or its age and the time are on the same side of the limit. -/
def StampsAgree (now : UInt32) (frame : VideoFrame) : Prop :=
  frame.recv < frame.total → frame.waittingTs ≠ -1 →
    (frame.age now > maxFrameWaitting ↔ now > maxFrameWaitting)

theorem ready_unstamp_iff (now : UInt32) (frame : VideoFrame) :
    frame.unstamp.ready now = frame.ready now ↔ frame.StampsAgree now := by
  have age := age_unstamp now frame
  simp only [ready, StampsAgree, age, decide_eq_decide]
  change (frame.recv = frame.total ∨
    frame.recv < frame.total ∧ frame.waittingTs ≠ -1 ∧ now > maxFrameWaitting ↔ _) ↔ _
  by_cases complete : frame.recv = frame.total
  · simp [complete]
  · by_cases short : frame.recv < frame.total
    · by_cases key : frame.waittingTs = -1
      · simp [complete, key]
      · simp only [complete, short, key, ne_eq, not_false_eq_true, true_and, false_or, forall_const]
        exact Iff.comm
    · simp [complete, short]

end VideoFrame

namespace MultipathReceiver

/-! ## Receivers without trace -/

/-- The entries of a cache without stamps. -/
def unstampEntries (entries : List (UInt32 × VideoFrame)) : List (UInt32 × VideoFrame) :=
  entries.map fun entry => (entry.1, entry.2.unstamp)

/-- The receiver without the frame trace callback and without stamps. -/
def untraced (receiver : MultipathReceiver) : MultipathReceiver :=
  { receiver with
    frameInfoCb := false
    frameCache := receiver.frameCache.mapVal VideoFrame.unstamp }

/-- A result without the effects of the frame trace callback. -/
def untracedResult (result : MultipathReceiver × List CacheCall) :
    MultipathReceiver × List CacheCall :=
  (result.1.untraced, hideInfo result.2)

theorem hideInfo_gapCalls (frame : VideoFrame) (receiver : MultipathReceiver) :
    hideInfo (receiver.gapCalls frame) = receiver.gapCalls frame := by
  rw [gapCalls]
  split_ifs <;> rfl

theorem hideInfo_infoCalls (now : UInt32) (frame : VideoFrame) (receiver : MultipathReceiver) :
    hideInfo (receiver.infoCalls now frame) = [] := by
  rw [infoCalls]
  split_ifs <;> rfl

theorem hideInfo_packetConsumed (frame : VideoFrame) :
    hideInfo (packetConsumed frame) = packetConsumed frame := by
  apply List.filter_eq_self.mpr
  intro call member
  obtain ⟨packet, -, rfl⟩ := List.mem_map.mp member
  rfl

theorem infoCalls_untraced (now : UInt32) (frame : VideoFrame) (receiver : MultipathReceiver) :
    receiver.untraced.infoCalls now frame = [] :=
  if_neg Bool.false_ne_true

theorem deliverFrame_untraced (now : UInt32) (frame : VideoFrame) (receiver : MultipathReceiver) :
    receiver.untraced.deliverFrame now frame.unstamp =
      untracedResult (receiver.deliverFrame now frame) := by
  have gap := hideInfo_gapCalls frame receiver
  have sink' : receiver.untraced.sink = receiver.sink := rfl
  rw [deliverFrame, deliverFrame, sink']
  by_cases sink : receiver.sink = true
  · rw [if_pos sink, if_pos sink]
    refine Prod.ext rfl ?_
    simp only [untracedResult, hideInfo_append, hideInfo_infoCalls, gap, infoCalls_untraced]
    rfl
  · rw [if_neg sink, if_neg sink]
    refine Prod.ext rfl ?_
    simp only [untracedResult, gap]
    rfl

theorem releaseFrame_untraced (now : UInt32) (frame : VideoFrame) (receiver : MultipathReceiver) :
    receiver.untraced.releaseFrame now frame.unstamp =
      untracedResult (receiver.releaseFrame now frame) := by
  simp only [releaseFrame, deliverFrame_untraced]
  simp only [untracedResult, hideInfo_append, hideInfo_packetConsumed]
  rfl

/-- The stamps decide about none of the frames that `CheckDeliverFrame` examines:
the first entry, and each further one as long as those before leave the cache. -/
def EntriesAgree (now : UInt32) : List (UInt32 × VideoFrame) → Prop
  | [] => True
  | entry :: rest =>
      entry.2.StampsAgree now ∧ (entry.2.ready now = true → EntriesAgree now rest)

theorem checkLoop_untraced {now : UInt32} {entries : List (UInt32 × VideoFrame)}
    (agree : EntriesAgree now entries) (receiver : MultipathReceiver) :
    checkLoop now (unstampEntries entries) receiver.untraced =
      (unstampEntries (checkLoop now entries receiver).1,
        untracedResult (checkLoop now entries receiver).2) := by
  induction entries generalizing receiver with
  | nil => rfl
  | cons entry rest ih =>
      obtain ⟨here, later⟩ := agree
      simp only [unstampEntries, List.map_cons, checkLoop,
        (VideoFrame.ready_unstamp_iff now entry.2).mpr here]
      split_ifs with ready
      · rw [releaseFrame_untraced]
        simp only [untracedResult, hideInfo_append]
        have left := ih (later ready) (receiver.releaseFrame now entry.2).1
        simp only [unstampEntries, untracedResult] at left
        rw [left]
      · rfl

/-- A frame that leaves the cache of a receiver with a sink is forwarded. -/
theorem forwarded_releaseFrame {receiver : MultipathReceiver} (sink : receiver.sink = true)
    (now : UInt32) (frame : VideoFrame) :
    (receiver.releaseFrame now frame).2.filterMap forwarded =
      [⟨frame.fid, frame.data, frame.recv, frame.total⟩] := by
  have gap : (receiver.gapCalls frame).filterMap forwarded = [] := by
    rw [gapCalls]
    split_ifs <;> rfl
  have info : (receiver.infoCalls now frame).filterMap forwarded = [] := by
    rw [infoCalls]
    split_ifs <;> rfl
  have consumed : (packetConsumed frame).filterMap forwarded = [] := by
    simp [packetConsumed, List.filterMap_map, forwarded, Function.comp_def]
  simp only [releaseFrame, deliverFrame, sink, if_true, List.filterMap_append, gap, info, consumed,
    List.nil_append, List.append_nil]
  rfl

theorem forwarded_recvBufLenCalls (delivered : Bool) (receiver : MultipathReceiver) :
    (receiver.recvBufLenCalls delivered).filterMap forwarded = [] := by
  rw [recvBufLenCalls]
  split_ifs <;> rfl

/-- What `CheckDeliverFrame` forwards is forwarded in its loop. -/
theorem forwarded_checkDeliverFrame (now : UInt32) (receiver : MultipathReceiver) :
    (receiver.checkDeliverFrame now).2.filterMap forwarded =
      (checkLoop now receiver.frameCache.entries receiver).2.2.filterMap forwarded := by
  simp only [checkDeliverFrame, List.filterMap_append, forwarded_recvBufLenCalls, List.append_nil]

/-- Where the stamps decide, the two loops forward different frames. -/
theorem checkLoop_apart {now : UInt32} {entries : List (UInt32 × VideoFrame)}
    (differ : ¬ EntriesAgree now entries) {receiver : MultipathReceiver}
    (sink : receiver.sink = true) :
    (checkLoop now entries receiver).2.2.filterMap forwarded ≠
      (checkLoop now (unstampEntries entries) receiver.untraced).2.2.filterMap forwarded := by
  induction entries generalizing receiver with
  | nil => exact absurd trivial differ
  | cons entry rest ih =>
      have released := forwarded_releaseFrame sink now entry.2
      have sink' : receiver.untraced.sink = true := sink
      have released' := forwarded_releaseFrame sink' now entry.2.unstamp
      simp only [unstampEntries, List.map_cons, checkLoop]
      by_cases here : entry.2.StampsAgree now
      · rw [(VideoFrame.ready_unstamp_iff now entry.2).mpr here]
        cases ready : entry.2.ready now with
        | false => exact absurd ⟨here, fun leaves => absurd leaves (by simp [ready])⟩ differ
        | true =>
            have later : ¬ EntriesAgree now rest := fun agree => differ ⟨here, fun _ => agree⟩
            have still : (receiver.releaseFrame now entry.2).1.sink = true :=
              (steady_releaseFrame now entry.2 receiver).sink.trans sink
            simp only [if_true, List.filterMap_append, released, releaseFrame_untraced]
            rw [show (untracedResult (receiver.releaseFrame now entry.2)).2.filterMap forwarded =
              _ from (forwarded_hideInfo _).trans released]
            exact fun same => ih later still (List.append_cancel_left same)
      · have ready := (VideoFrame.ready_unstamp_iff now entry.2).not.mpr here
        cases traced : entry.2.ready now with
        | false =>
            rw [traced] at ready
            simp only [Bool.not_eq_false] at ready
            simp only [ready, if_true, Bool.false_eq_true, if_false, List.filterMap_append,
              released', List.filterMap_nil]
            simp
        | true =>
            rw [traced] at ready
            simp only [Bool.not_eq_true] at ready
            simp only [ready, if_true, Bool.false_eq_true, if_false, List.filterMap_append,
              released, List.filterMap_nil]
            simp

/-! ## Member functions -/

/-- The stamps decide about nothing that `CheckDeliverFrame` examines. -/
def ChecksAgree (now : UInt32) (receiver : MultipathReceiver) : Prop :=
  EntriesAgree now receiver.frameCache.entries

theorem checkDeliverFrame_untraced {now : UInt32} {receiver : MultipathReceiver}
    (agree : ChecksAgree now receiver) :
    receiver.untraced.checkDeliverFrame now = untracedResult (receiver.checkDeliverFrame now) := by
  have loop := checkLoop_untraced agree receiver
  have entries : receiver.untraced.frameCache.entries =
    unstampEntries receiver.frameCache.entries := rfl
  have length : ∀ list, (unstampEntries list).length = list.length := fun _ => List.length_map _
  have hidden : ∀ delivered (receiver : MultipathReceiver),
      hideInfo (receiver.recvBufLenCalls delivered) = receiver.recvBufLenCalls delivered := by
    intro delivered receiver
    rw [recvBufLenCalls]
    split_ifs <;> rfl
  simp only [checkDeliverFrame, entries, loop, length, untracedResult, hideInfo_append, hidden]
  rfl

theorem checkDeliverFrame_apart {now : UInt32} {receiver : MultipathReceiver}
    (sink : receiver.sink = true) (differ : ¬ ChecksAgree now receiver) :
    (receiver.checkDeliverFrame now).2.filterMap forwarded ≠
      (receiver.untraced.checkDeliverFrame now).2.filterMap forwarded := by
  rw [forwarded_checkDeliverFrame, forwarded_checkDeliverFrame]
  exact checkLoop_apart differ sink

theorem heartBeat_untraced {now : UInt32} {receiver : MultipathReceiver}
    (agree : receiver.hbTimer = false → receiver.stop = false → ChecksAgree now receiver) :
    receiver.untraced.heartBeat now = untracedResult (receiver.heartBeat now) := by
  have timer : receiver.untraced.hbTimer = receiver.hbTimer := rfl
  have stop : receiver.untraced.stop = receiver.stop := rfl
  rw [heartBeat, heartBeat, process, process, timer, stop]
  cases scheduled : receiver.hbTimer with
  | true => rfl
  | false =>
      cases stopped : receiver.stop with
      | true => rfl
      | false =>
          simp only [Bool.false_eq_true, if_false,
            checkDeliverFrame_untraced (agree scheduled stopped)]
          rfl

theorem heartBeatExpired_untraced {now : UInt32} {receiver : MultipathReceiver}
    (agree : receiver.stop = false → ChecksAgree now receiver) :
    receiver.untraced.heartBeatExpired now = untracedResult (receiver.heartBeatExpired now) := by
  have expired : ({ receiver with hbTimer := false } : MultipathReceiver).hbTimer = false →
      receiver.stop = false → ChecksAgree now receiver := fun _ => agree
  exact heartBeat_untraced expired

theorem heartBeatExpired_calls {now : UInt32} {receiver : MultipathReceiver}
    (stop : receiver.stop = false) :
    (receiver.heartBeatExpired now).2 =
      ({ receiver with hbTimer := false }.checkDeliverFrame now).2 := by
  have running : ({ receiver with hbTimer := false } : MultipathReceiver).stop = false := stop
  rw [heartBeatExpired, heartBeat, process, running]
  rfl

theorem heartBeatExpired_apart {now : UInt32} {receiver : MultipathReceiver}
    (sink : receiver.sink = true) (stop : receiver.stop = false)
    (differ : ¬ ChecksAgree now receiver) :
    (receiver.heartBeatExpired now).2.filterMap forwarded ≠
      (receiver.untraced.heartBeatExpired now).2.filterMap forwarded := by
  have stop' : receiver.untraced.stop = false := stop
  have sink' : ({ receiver with hbTimer := false } : MultipathReceiver).sink = true := sink
  rw [heartBeatExpired_calls stop, heartBeatExpired_calls stop']
  exact checkDeliverFrame_apart sink' differ

theorem frameOf_untraced (seg : SimSegment) (receiver : MultipathReceiver) :
    receiver.untraced.frameOf seg = (receiver.frameOf seg).unstamp := by
  simp only [frameOf, untraced, SortedMap.find?_mapVal]
  cases receiver.frameCache.find? seg.fid <;> rfl

theorem store_untraced {receiver : MultipathReceiver} (traced : receiver.frameInfoCb = true)
    (env : CacheEnv) (pid : UInt8) (seg : SimSegment) :
    receiver.untraced.store env pid seg = (receiver.store env pid seg).untraced := by
  have object : receiver.untraced.takeObject =
      (receiver.takeObject.1, receiver.takeObject.2.untraced) := by
    have free : receiver.untraced.freeSegs = receiver.freeSegs := rfl
    rw [takeObject, takeObject, free]
    cases receiver.freeSegs <;> rfl
  have still : receiver.takeObject.2.frameInfoCb = true := by
    rw [takeObject]
    cases receiver.freeSegs <;> exact traced
  have hidden : receiver.takeObject.2.untraced.frameInfoCb = false := rfl
  simp only [store, object, frameOf_untraced, still, hidden]
  simp only [← VideoFrame.unstamp_stamp, ← VideoFrame.unstamp_place, ← VideoFrame.unstamp_await]
  simp only [untraced, SortedMap.mapVal_set]

/-- The stamps decide about nothing that the arrival of a segment makes the
receiver examine. -/
def AdmitAgrees (env : CacheEnv) (pid : UInt8) (seg : SimSegment) (receiver : MultipathReceiver) :
    Prop :=
  receiver.checkLateFrame seg.fid = false →
    (receiver.frameOf seg).packets[seg.index.toNat]? = some none →
      ChecksAgree env.now (receiver.store env pid seg)

theorem accept_stored {env : CacheEnv} {pid : UInt8} {seg : SimSegment}
    {receiver : MultipathReceiver} (late : receiver.checkLateFrame seg.fid = false)
    (slot : (receiver.frameOf seg).packets[seg.index.toNat]? = some none) :
    receiver.accept env pid seg = some ((receiver.store env pid seg).checkDeliverFrame env.now) := by
  rw [accept, late, slot]
  rfl

theorem deliverToCache_running {receiver : MultipathReceiver} (stop : receiver.stop = false)
    (env : CacheEnv) (pid : UInt8) (seg : SimSegment) :
    receiver.deliverToCache env pid seg =
      ((receiver.firstHeartBeat env.now).1.accept env pid seg).map fun result =>
        (result.1, (receiver.firstHeartBeat env.now).2 ++ result.2) := by
  rw [deliverToCache, stop]
  rfl

theorem accept_untraced {env : CacheEnv} {pid : UInt8} {seg : SimSegment}
    {receiver : MultipathReceiver} (traced : receiver.frameInfoCb = true)
    (agree : AdmitAgrees env pid seg receiver) :
    receiver.untraced.accept env pid seg = (receiver.accept env pid seg).map untracedResult := by
  have late : receiver.untraced.checkLateFrame seg.fid = receiver.checkLateFrame seg.fid := rfl
  have slots : (receiver.untraced.frameOf seg).packets = (receiver.frameOf seg).packets := by
    rw [frameOf_untraced]
    rfl
  rw [accept, accept, late, slots]
  cases tooLate : receiver.checkLateFrame seg.fid with
  | true => rfl
  | false =>
      cases slot : (receiver.frameOf seg).packets[seg.index.toNat]? with
      | none => rfl
      | some slot' =>
          cases slot' with
          | some packet => rfl
          | none =>
              simp only [Bool.false_eq_true, if_false, store_untraced traced,
                checkDeliverFrame_untraced (agree tooLate slot)]
              rfl

/-- A receiver with a sink and a frame trace callback that has cached nothing
before its first segment. -/
structure Traced (receiver : MultipathReceiver) : Prop where
  sink : receiver.sink = true
  frameInfoCb : receiver.frameInfoCb = true
  idle : receiver.firstPacket = false → receiver.frameCache.entries = []

/-- Before the first segment there is nothing to check. -/
theorem Traced.firstHeartBeat {receiver : MultipathReceiver} (traced : Traced receiver)
    (now : UInt32) :
    receiver.untraced.firstHeartBeat now = untracedResult (receiver.firstHeartBeat now) := by
  have first : receiver.untraced.firstPacket = receiver.firstPacket := rfl
  rw [MultipathReceiver.firstHeartBeat, MultipathReceiver.firstHeartBeat, first]
  cases began : receiver.firstPacket with
  | true => rfl
  | false =>
      have nothing : ChecksAgree now receiver := by
        rw [ChecksAgree, traced.idle began]
        trivial
      simp only [Bool.false_eq_true, if_false, heartBeat_untraced fun _ _ => nothing]
      rfl

theorem steady_heartBeat (now : UInt32) (receiver : MultipathReceiver) :
    (receiver.heartBeat now).1.sink = receiver.sink ∧
      (receiver.heartBeat now).1.frameInfoCb = receiver.frameInfoCb ∧
      (receiver.heartBeat now).1.firstPacket = receiver.firstPacket ∧
      (receiver.frameCache.entries = [] → (receiver.heartBeat now).1.frameCache.entries = []) := by
  have check := steady_checkDeliverFrame now receiver
  simp only [heartBeat, process]
  split_ifs
  · exact ⟨rfl, rfl, rfl, id⟩
  · exact ⟨rfl, rfl, rfl, id⟩
  · refine ⟨check.sink, check.frameInfoCb, check.firstPacket, ?_⟩
    intro empty
    simp only [checkDeliverFrame, empty, checkLoop]

/-- A segment leaves the receiver traced, and past its first packet. -/
theorem Traced.accept {env : CacheEnv} {pid : UInt8} {seg : SimSegment}
    {receiver : MultipathReceiver} {result : MultipathReceiver × List CacheCall}
    (traced : Traced receiver) (began : receiver.firstPacket = true)
    (accepted : receiver.accept env pid seg = some result) : Traced result.1 := by
  have same : Traced receiver := traced
  rw [MultipathReceiver.accept] at accepted
  split_ifs at accepted with late
  · exact Option.some.inj accepted ▸ same
  · cases slot : (receiver.frameOf seg).packets[seg.index.toNat]? with
    | none =>
        rw [slot] at accepted
        cases accepted
    | some slot' =>
        rw [slot] at accepted
        cases slot' with
        | some packet => exact Option.some.inj accepted ▸ same
        | none =>
            have check := steady_checkDeliverFrame env.now (receiver.store env pid seg)
            have stored : (receiver.store env pid seg).sink = receiver.sink ∧
                (receiver.store env pid seg).frameInfoCb = receiver.frameInfoCb ∧
                (receiver.store env pid seg).firstPacket = receiver.firstPacket := by
              simp only [store, takeObject]
              cases receiver.freeSegs <;> exact ⟨rfl, rfl, rfl⟩
            obtain ⟨sink, info, first⟩ := stored
            rw [← Option.some.inj accepted]
            refine ⟨check.sink.trans (sink.trans traced.sink),
              check.frameInfoCb.trans (info.trans traced.frameInfoCb), ?_⟩
            intro idle
            rw [check.firstPacket, first, began] at idle
            cases idle

/-- The first heartbeat leaves a traced receiver traced, and marks the first packet. -/
theorem Traced.afterFirst {receiver : MultipathReceiver} (traced : Traced receiver)
    (now : UInt32) :
    Traced (receiver.firstHeartBeat now).1 ∧ (receiver.firstHeartBeat now).1.firstPacket = true := by
  obtain ⟨sink, info, -, -⟩ := steady_heartBeat now receiver
  simp only [MultipathReceiver.firstHeartBeat]
  split_ifs with began
  · exact ⟨traced, began⟩
  · exact ⟨⟨sink.trans traced.sink, info.trans traced.frameInfoCb, fun idle => by cases idle⟩, rfl⟩

/-! ## Runs with and without trace -/

/-- The stamps decide about nothing that the receiver examines on an event. -/
def StepAgrees (receiver : MultipathReceiver) : CacheEvent → Prop
  | .deliverToCache env pid seg =>
      receiver.stop = false → AdmitAgrees env pid seg (receiver.firstHeartBeat env.now).1
  | .heartBeatExpired now => receiver.stop = false → ChecksAgree now receiver
  | .stop => True

theorem Traced.handle {receiver : MultipathReceiver} {event : CacheEvent}
    {result : MultipathReceiver × List CacheCall} (traced : Traced receiver)
    (handled : receiver.handle event = some result) : Traced result.1 := by
  cases event with
  | deliverToCache env pid seg =>
      change receiver.deliverToCache env pid seg = _ at handled
      obtain ⟨after, began⟩ := traced.afterFirst env.now
      rw [deliverToCache] at handled
      split_ifs at handled with stopped
      · exact Option.some.inj handled ▸ traced
      · obtain ⟨accepted, step, rfl⟩ := Option.map_eq_some_iff.mp handled
        have kept : Traced accepted.1 := after.accept began step
        exact kept
  | heartBeatExpired now =>
      obtain ⟨sink, info, first, empty⟩ := steady_heartBeat now { receiver with hbTimer := false }
      rw [← Option.some.inj handled]
      exact ⟨sink.trans traced.sink, info.trans traced.frameInfoCb,
        fun idle => empty (traced.idle (first.symm.trans idle))⟩
  | stop =>
      rw [← Option.some.inj handled]
      exact ⟨traced.sink, traced.frameInfoCb, traced.idle⟩

/-- Where the stamps do not decide, removing the trace commutes with the step. -/
theorem handle_untraced {receiver : MultipathReceiver} {event : CacheEvent}
    (traced : Traced receiver) (agree : receiver.StepAgrees event) :
    receiver.untraced.handle event = (receiver.handle event).map untracedResult := by
  cases event with
  | deliverToCache env pid seg =>
      have stop : receiver.untraced.stop = receiver.stop := rfl
      change receiver.untraced.deliverToCache env pid seg = _
      rw [MultipathReceiver.handle, deliverToCache, deliverToCache, stop]
      cases stopped : receiver.stop with
      | true => rfl
      | false =>
          have first := traced.firstHeartBeat env.now
          have rest := accept_untraced (traced.afterFirst env.now).1.frameInfoCb (agree stopped)
          simp only [Bool.false_eq_true, if_false, first]
          simp only [untracedResult, rest, Option.map_map, Function.comp_def, hideInfo_append]
  | heartBeatExpired now => exact congrArg some (heartBeatExpired_untraced agree)
  | stop => rfl

/-- Where they decide, the step is defined in both runs, and what is forwarded
differs. -/
theorem handle_apart {receiver : MultipathReceiver} {event : CacheEvent}
    (traced : Traced receiver) (differ : ¬ receiver.StepAgrees event) :
    ∃ s t first second, receiver.handle event = some (s, first) ∧
      receiver.untraced.handle event = some (t, second) ∧
      first.filterMap forwarded ≠ second.filterMap forwarded := by
  cases event with
  | deliverToCache env pid seg =>
      simp only [StepAgrees, AdmitAgrees, Classical.not_imp] at differ
      obtain ⟨stopped, tooLate, slot, differ⟩ := differ
      have first := traced.firstHeartBeat env.now
      have after := (traced.afterFirst env.now).1
      have step := deliverToCache_running stopped env pid seg
      have stopped' : receiver.untraced.stop = false := stopped
      have step' := deliverToCache_running stopped' env pid seg
      rw [first] at step'
      generalize receiver.firstHeartBeat env.now = began at after tooLate slot differ step step'
      have slot' : (began.1.untraced.frameOf seg).packets[seg.index.toNat]? = some none := by
        rw [frameOf_untraced]
        exact slot
      have sink : (began.1.store env pid seg).sink = true := by
        simp only [store, takeObject]
        cases began.1.freeSegs <;> exact after.sink
      rw [accept_stored tooLate slot] at step
      have tooLate' : began.1.untraced.checkLateFrame seg.fid = false := tooLate
      rw [untracedResult, accept_stored tooLate' slot',
        store_untraced after.frameInfoCb] at step'
      refine ⟨_, _, _, _, step, step', ?_⟩
      simp only [List.filterMap_append, forwarded_hideInfo]
      exact fun same => checkDeliverFrame_apart sink differ (List.append_cancel_left same)
  | heartBeatExpired now =>
      simp only [StepAgrees, Classical.not_imp] at differ
      exact ⟨_, _, _, _, rfl, rfl, heartBeatExpired_apart traced.sink differ.1 differ.2⟩
  | stop => exact absurd trivial differ

/-- The second receiver is the first without trace. -/
def Twin (traced untraced : MultipathReceiver) : Prop :=
  Traced traced ∧ untraced = traced.untraced

theorem handle_together {traced untraced : MultipathReceiver} {event : CacheEvent}
    (twin : Twin traced untraced) (agree : traced.StepAgrees event) :
    Option.Rel (fun first second => Twin first.1 second.1 ∧
      first.2.filterMap forwarded = second.2.filterMap forwarded)
      (traced.handle event) (untraced.handle event) := by
  obtain ⟨start, rfl⟩ := twin
  rw [handle_untraced start agree]
  cases handled : traced.handle event with
  | none => exact .none
  | some result =>
      exact .some ⟨⟨start.handle handled, rfl⟩, (forwarded_hideInfo result.2).symm⟩

/-- A receiver before its first segment, with a sink registered. -/
def registered (gapCb recvLenCb frameInfoCb : Bool) : MultipathReceiver :=
  { sink := true, gapCb, recvLenCb, frameInfoCb }

/-- **A frame trace callback leaves the forwarded frames alone if and only if the
stamps never decide.** The two receivers differ in the callback; the events are any
arrivals and heartbeats at any times. The frames forwarded after every prefix are the
same exactly when, at each step of the run, no frame that the receiver examines has
its age and the time on different sides of the limit. -/
theorem forwarded_same_iff (gapCb recvLenCb : Bool) (events : List CacheEvent) :
    (∀ n, machine.observed forwarded (registered gapCb recvLenCb true) (events.take n) =
        machine.observed forwarded (registered gapCb recvLenCb false) (events.take n)) ↔
      machine.Along StepAgrees (registered gapCb recvLenCb true) events :=
  Machine.sameObservations_iff Twin
    (fun _ _ _ twin agree => handle_together twin agree)
    (fun _ _ _ twin differ => twin.2 ▸ handle_apart twin.1 differ)
    ⟨⟨rfl, rfl, fun _ => rfl⟩, rfl⟩ events

/-- The first of two segments of a frame that is no key frame, sent and received
two seconds into the simulation. -/
def lateStart : CacheEvent :=
  .deliverToCache ⟨2000, 60, 1990⟩ 1 ⟨1, 1, 0, 0, 2, 0, 0, 1, 0, 1, .empty⟩

/-- Without the callback the frame counts as two seconds old, and is forwarded with
one of its segments; with the callback it is ten milliseconds old and kept. -/
theorem lateStart_forwarded_untraced :
    ¬ ∀ n, machine.observed forwarded (registered false false true) ([lateStart].take n) =
      machine.observed forwarded (registered false false false) ([lateStart].take n) := by
  intro same
  exact absurd (same 1) (by decide)

end MultipathReceiver

end MpVideo.Receiver
