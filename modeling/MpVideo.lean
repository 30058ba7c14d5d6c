import MpVideo.Congestion.BbrBackoff
import MpVideo.Congestion.BbrDecisions
import MpVideo.Congestion.BbrDrain
import MpVideo.Congestion.BbrGains
import MpVideo.Congestion.BbrModes
import MpVideo.Congestion.BbrRtt
import MpVideo.Congestion.BbrSender
import MpVideo.Congestion.IdealPacer
import MpVideo.Congestion.InFlight
import MpVideo.Congestion.SampleHistory
import MpVideo.Congestion.Sampler
import MpVideo.EndToEnd.Acks
import MpVideo.EndToEnd.ByteAccounting
import MpVideo.EndToEnd.FrameCache
import MpVideo.EndToEnd.Handshake
import MpVideo.EndToEnd.Integrity
import MpVideo.EndToEnd.Link
import MpVideo.EndToEnd.PacketDelays
import MpVideo.EndToEnd.PacketLink
import MpVideo.EndToEnd.PacketLosses
import MpVideo.EndToEnd.Pings
import MpVideo.EndToEnd.Requests
import MpVideo.EndToEnd.RoundTrips
import MpVideo.EndToEnd.System
import MpVideo.EndToEnd.Wraparound
import MpVideo.Lib.EventQueue
import MpVideo.Lib.Filling
import MpVideo.Lib.Least
import MpVideo.Lib.Machine
import MpVideo.Lib.MachineInt
import MpVideo.Lib.Memory
import MpVideo.Lib.Records
import MpVideo.Lib.Rounding
import MpVideo.Lib.Slots
import MpVideo.Lib.Smoothing
import MpVideo.Lib.SortedMap
import MpVideo.Lib.SortedSet
import MpVideo.Lib.Sorting
import MpVideo.Lib.TableCrc
import MpVideo.Lib.Tape
import MpVideo.Receiver.Answers
import MpVideo.Receiver.Arrivals
import MpVideo.Receiver.BufferAccounting
import MpVideo.Receiver.Controller
import MpVideo.Receiver.MultipathReceiver
import MpVideo.Receiver.NackList
import MpVideo.Receiver.PathReceiver
import MpVideo.Receiver.SeqTables
import MpVideo.Receiver.SlotBounds
import MpVideo.Receiver.StreamCapacity
import MpVideo.Receiver.Tracing
import MpVideo.Schedule.AverageLength
import MpVideo.Schedule.Balance
import MpVideo.Schedule.BalanceCost
import MpVideo.Schedule.Basic
import MpVideo.Schedule.Edcld
import MpVideo.Schedule.EdcldEstimate
import MpVideo.Schedule.EdcldRuns
import MpVideo.Schedule.EdcldShares
import MpVideo.Schedule.EdcldTables
import MpVideo.Schedule.FairRoundRobin
import MpVideo.Schedule.GreedyDispatch
import MpVideo.Schedule.Lookups
import MpVideo.Schedule.RateWeighted
import MpVideo.Schedule.Scale
import MpVideo.Schedule.WaterDispatch
import MpVideo.Schedule.WaterFilling
import MpVideo.Schedule.WaterLevel
import MpVideo.Schedule.WeightRoundRobin
import MpVideo.Sender.Connection
import MpVideo.Sender.Conservation
import MpVideo.Sender.FrameSplit
import MpVideo.Sender.MultipathSender
import MpVideo.Sender.OwnPacing
import MpVideo.Sender.PacingEvents
import MpVideo.Sender.PathSender
import MpVideo.Sender.PathTimers
import MpVideo.Sender.QueueAccounting
import MpVideo.Sender.Resolvable
import MpVideo.V1.Datagrams
import MpVideo.V1.FrameOrder
import MpVideo.V1.LossDetection
import MpVideo.V1.MpReceiver
import MpVideo.V1.MultipathRuns
import MpVideo.V1.OneWayDelay
import MpVideo.V1.PacketConservation
import MpVideo.V1.PathRegistry
import MpVideo.V1.PathSender
import MpVideo.V1.QueueDiscipline
import MpVideo.V1.Reception
import MpVideo.V1.Retransmission
import MpVideo.V1.SegmentCodec
import MpVideo.V1.StaleSweep
import MpVideo.V1.TimeBase
import MpVideo.V1.VideoProto
import MpVideo.Wire.Corruption
import MpVideo.Wire.Crc32
import MpVideo.Wire.Cursors
import MpVideo.Wire.Proto
import MpVideo.Wire.RoundTrip
import MpVideo.Wire.Stream
import MpVideo.Wire.Truncation
import MpVideo.Wire.TypedQueue
