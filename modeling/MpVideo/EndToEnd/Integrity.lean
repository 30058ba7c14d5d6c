import MpVideo.EndToEnd.System

/-!
# Integrity of what is forwarded

Whatever the order of events, what is forwarded is what was sent (`run_integrity`),
as long as there are no more frames than frame numbers and no datagram that arrives is
longer than the stream it is copied to. One frame more, and its segments can complete the
frame that had the number before (`wrapped_mixes`).
-/

set_option autoImplicit false

namespace MpVideo.EndToEnd

open Wire Sender Receiver

/-! ## Integrity over runs -/

/-- The invariant of a run in which the sender takes the frames of `all`: some were
taken before, the others are still to come. -/
def RunInv (all : List Frame) (system : System) (log : List CacheCall)
    (left : List SystemEvent) : Prop :=
  ∃ sent, SystemInv sent system log ∧
    sent ++ (if system.sender.stop then [] else System.videoFrames left) = all

/-- A step that takes no frame. -/
theorem runInv_of_sent {all sent : List Frame} {system next : System}
    {log : List CacheCall} {event : SystemEvent} {rest : List SystemEvent}
    (taken : sent ++ (if system.sender.stop then [] else System.videoFrames (event :: rest)) = all)
    (same : System.videoFrames (event :: rest) = System.videoFrames rest)
    (stop : next.sender.stop = system.sender.stop) (inv : SystemInv sent next log) :
    RunInv all next log rest :=
  ⟨sent, inv, by rw [stop, ← same, taken]⟩

/-- **Every step whose datagram fits is defined and keeps the invariant.** -/
theorem RunInv.step {all : List Frame} (few : all.length ≤ 2 ^ 32) {system : System}
    {log : List CacheCall} {event : SystemEvent} {rest : List SystemEvent}
    (inv : RunInv all system log (event :: rest)) (fits : system.ArrivalFits event) :
    ∃ next calls, System.machine.step system event = some (next, calls) ∧
      RunInv all next (log ++ calls) rest := by
  obtain ⟨sent, inv, taken⟩ := inv
  have fewSent : sent.length ≤ 2 ^ 32 := by
    rw [← taken, List.length_append] at few
    omega
  have unnumbered := unnumbered_genuine sent
  cases event with
  | registerPath paceMode =>
      refine ⟨_, [], rfl, runInv_of_sent taken rfl rfl ?_⟩
      rw [List.append_nil]
      exact inv.withSender ⟨rfl, rfl⟩ (inv.holds.registerPath paceMode)
  | connect pid path =>
      have continues := MultipathSender.continues_notifyPathUsable pid system.sender
      have connected := inv.withSender continues (inv.holds.notifyPathUsable pid)
      refine ⟨_, [], rfl, runInv_of_sent taken rfl continues.stop ?_⟩
      rw [List.append_nil]
      refine ⟨connected.frameSeed, connected.holds, connected.datagrams, ?_,
        connected.receiver⟩
      intro entry member
      rcases SortedMap.mem_insert_of member with rfl | old
      · rfl
      · exact inv.pids entry old
  | sendVideo now frame =>
      refine ⟨_, [], rfl, ?_⟩
      rw [List.append_nil]
      cases stopped : system.sender.stop with
      | true =>
          have same : system.sender.sendVideo now frame = system.sender := by
            rw [MultipathSender.sendVideo, if_pos stopped]
          refine ⟨sent, same.symm ▸ inv, ?_⟩
          rw [same, if_pos stopped]
          rwa [if_pos stopped] at taken
      | false =>
          have running := (MultipathSender.sendVideo_running stopped now frame).2
          refine ⟨sent ++ [frame], inv.sendVideo stopped now frame, ?_⟩
          rw [stopped] at taken
          simpa [running, System.videoFrames] using taken
  | packetSchedule scheduleId pid =>
      have continues := MultipathSender.continues_packetSchedule scheduleId pid system.sender
      refine ⟨_, [], rfl, runInv_of_sent taken rfl continues.stop ?_⟩
      rw [List.append_nil]
      exact inv.withSender continues (inv.holds.packetSchedule unnumbered scheduleId pid)
  | timeToSendPacket pid seq retransmission now =>
      have sends := inv.holds.timeToSendPacket unnumbered pid seq retransmission now
      refine ⟨_, [], rfl, runInv_of_sent taken rfl sends.stop ?_⟩
      rw [List.append_nil]
      exact inv.transmit sends
  | pacingSendSegment pid now =>
      have sends := inv.holds.pacingSendSegment unnumbered pid now
      refine ⟨_, [], rfl, runInv_of_sent taken rfl sends.stop ?_⟩
      rw [List.append_nil]
      exact inv.transmit sends
  | arrive n env =>
      obtain ⟨next, calls, defined, holds, sender⟩ := inv.arrive fewSent n env fits
      exact ⟨next, calls, defined, runInv_of_sent taken rfl (sender ▸ rfl) holds⟩
  | heartBeatExpired now =>
      exact ⟨_, _, rfl, runInv_of_sent taken rfl rfl
        (inv.answer _ (inv.receiver.heartBeatExpired now))⟩
  | pingTimerExpired pid now =>
      refine ⟨_, [], rfl, runInv_of_sent taken rfl ?_ ?_⟩
      · rw [System.pingTimerExpired]
        cases system.paths.find? pid <;> rfl
      · rw [List.append_nil, System.pingTimerExpired]
        cases found : system.paths.find? pid with
        | none => exact inv
        | some path =>
            have same : (path.pingTimerExpired now).1.pid = path.pid :=
              (PathReceiver.quiet_checkPing now _).pid
            exact inv.setPath (same.trans (inv.find? found))
  | stopSender =>
      refine ⟨_, [], rfl, sent, ?_, ?_⟩
      · rw [List.append_nil]
        exact ⟨inv.frameSeed, inv.holds.stopSender, inv.datagrams, inv.pids, inv.receiver⟩
      · cases stopped : system.sender.stop <;> rw [stopped] at taken <;> exact taken
  | stopReceiver =>
      refine ⟨_, [], rfl, runInv_of_sent taken rfl rfl ?_⟩
      rw [List.append_nil]
      refine ⟨inv.frameSeed, inv.holds, inv.datagrams, ?_,
        inv.receiver.congr rfl rfl⟩
      intro entry member
      obtain ⟨old, isOld, rfl⟩ := List.mem_map.mp member
      exact inv.pids old isOld

/-- A run is defined, and what it forwards has integrity. -/
def RunsWithIntegrity (uid : UInt32) (gapCb recvLenCb frameInfoCb : Bool)
    (events : List SystemEvent) : Prop :=
  ∃ last calls,
    System.machine.run (System.start uid gapCb recvLenCb frameInfoCb) events = some (last, calls) ∧
      Integrity (System.videoFrames events) (calls.filterMap forwarded)

/-- **What is forwarded is what was sent.** In every run of the system, whatever the
schedule, the pacing and the fate of each datagram, with at most as many frames as there
are frame numbers and with every datagram that arrives short enough for its stream: no
step is undefined, frames are forwarded under increasing numbers, a complete
frame with the bytes given to `SendVideo`, and an incomplete one, never a key frame,
with a proper subset of its pieces in their order. -/
theorem run_integrity (uid : UInt32) (gapCb recvLenCb frameInfoCb : Bool)
    {events : List SystemEvent} (few : (System.videoFrames events).length ≤ 2 ^ 32)
    (fits : System.machine.Along System.ArrivalFits
      (System.start uid gapCb recvLenCb frameInfoCb) events) :
    RunsWithIntegrity uid gapCb recvLenCb frameInfoCb events := by
  have begin : RunInv (System.videoFrames events)
      (System.start uid gapCb recvLenCb frameInfoCb) [] events :=
    ⟨[], SystemInv.start uid gapCb recvLenCb frameInfoCb, rfl⟩
  obtain ⟨last, calls, ran, sent, inv, taken⟩ := System.machine.run_defined_along
    (fun _ _ _ _ inv holds => RunInv.step few inv holds) begin fits
  refine ⟨last, calls, ran, ?_⟩
  have all : sent = System.videoFrames events := by
    rw [← taken]
    cases last.sender.stop <;> simp [System.videoFrames]
  exact all ▸ inv.receiver.toIntegrity

/-- A frame of one byte. -/
def smallFrame : Frame := ⟨100, 0, [42], by decide⟩

/-- One path, on which the only datagram is sent and arrives twice. -/
theorem run_integrity_small : RunsWithIntegrity 7 false false false
    [.registerPath .noCongestion, .connect 1 { uid := 9 }, .sendVideo 40 smallFrame,
      .packetSchedule 1 1, .timeToSendPacket 1 1 false 45,
      .arrive 0 ⟨60, none⟩, .arrive 0 ⟨61, none⟩] :=
  run_integrity 7 false false false (by decide) (by decide +kernel)

end MpVideo.EndToEnd
