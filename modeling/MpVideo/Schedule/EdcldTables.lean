import MpVideo.Schedule.Balance
import MpVideo.Schedule.Edcld

/-!
# The tables of the EDCLD schedulers

`edcldschedule.cc` and `edcld_v1.cc`, in exact arithmetic. Both schedulers keep a cost
and a share of the traffic for each path, in `cost_table_` and `psi_table_`. Each frame
moves a part of the share of the path with the highest cost to the one with the lowest
(`UpdateCostAndPsiTable`), and the tables are built anew when a path comes or goes
(`ResetCostAndPsiTable`). The schedulers differ only in how they send a frame that they
do not split, so that function is a parameter.

What is read from a path is part of the input, and so is the square root. A division by
zero is undefined (`none`).
-/

set_option autoImplicit false

namespace MpVideo.Schedule

/-- What the schedulers read from a path: `GetMinRtt` or `get_rtt`, `GetIntantRate` and
`GetPendingLen`. The first generation has the last two in 32 bits. -/
structure PathReading where
  rtt : UInt32
  rate : UInt64
  pendingLen : UInt64

/-- The readings of all paths. -/
abbrev Readings := UInt8 → PathReading

/-- The members of `EDCLDSchedule` and of `EDCLDScheduleV1`. -/
structure EdcldTables where
  w : ℚ
  pids : List UInt8 := []
  lastTs : UInt32 := 0
  costTable : SortedMap UInt8 ℚ := .empty
  psiTable : SortedMap UInt8 ℚ := .empty
  averagePacketLen : UInt32 := 0
  packetCounter : UInt64 := 0
  smoothRate : ℚ := 0

namespace EdcldTables

/-- `coeff_`. -/
def coeff : ℚ := 85 / 100

/-- `Schedule::RegisterPath` on `pids_`. -/
def addPid (pid : UInt8) (tables : EdcldTables) : EdcldTables :=
  if pid ∈ tables.pids then tables else { tables with pids := tables.pids ++ [pid] }

/-- `Schedule::UnregisterPath` on `pids_`. -/
def removePid (pid : UInt8) (tables : EdcldTables) : EdcldTables :=
  { tables with pids := tables.pids.erase pid }

/-! ## Building the tables -/

/-- `GetUsablePath`: the rates are stored in 32 bits. -/
def getUsablePath (readings : Readings) (tables : EdcldTables) :
    SortedMap UInt8 UInt32 × UInt32 :=
  collectRates (fun pid => (readings pid).rate.toUInt32) tables.pids

/-- The loop over the usable paths. A path that is in a table keeps its entry. -/
def insertEntries (readings : Readings) (totalrate : UInt32) :
    List (UInt8 × UInt32) → EdcldTables → EdcldTables
  | [], tables => tables
  | (tempPid, rate) :: rest, tables =>
      insertEntries readings totalrate rest { tables with
        costTable := tables.costTable.insert tempPid (readings tempPid).rtt.toNat
        psiTable := tables.psiTable.insert tempPid (rate.toNat / totalrate.toNat) }

/-- What the first frame and `ResetCostAndPsiTable` do with the usable paths. -/
def insertUsable (readings : Readings) (tables : EdcldTables) : Option EdcldTables :=
  let (pathrate, totalrate) := tables.getUsablePath readings
  if totalrate = 0 ∧ pathrate.entries ≠ [] then none
  else some (insertEntries readings totalrate pathrate.entries tables)

/-- The loop of `ResetCostAndPsiTable` that empties `cost_table_`. -/
def clearCost (tables : EdcldTables) : EdcldTables := { tables with costTable := .empty }

/-- `ResetCostAndPsiTable`. Only one of the tables is emptied. -/
def resetCostAndPsiTable (readings : Readings) (tables : EdcldTables) : Option EdcldTables :=
  tables.clearCost.insertUsable readings

/-- `RegisterPath`. -/
def registerPath (pid : UInt8) (readings : Readings) (tables : EdcldTables) :
    Option EdcldTables :=
  let tables := tables.addPid pid
  if tables.lastTs ≠ 0 then tables.resetCostAndPsiTable readings else some tables

/-- `UnregisterPath`. -/
def unregisterPath (pid : UInt8) (readings : Readings) (tables : EdcldTables) :
    Option EdcldTables :=
  (tables.removePid pid).resetCostAndPsiTable readings

/-! ## Moving shares -/

/-- The packet length and the counter that a frame updates first. -/
def countPackets (n size : UInt32) (tables : EdcldTables) : Option EdcldTables :=
  if n > 0 ∧ size > 0 then
    let counter := tables.packetCounter + n.toUInt64
    if counter = 0 then none
    else
      some { tables with
        averagePacketLen := ((tables.averagePacketLen.toUInt64 * tables.packetCounter +
          size.toUInt64) / counter).toUInt32
        packetCounter := counter }
  else some tables

/-- The tables and `S_table` in the loop over the costs. -/
structure CostLoop where
  tables : EdcldTables
  sTable : SortedMap UInt8 ℚ := .empty

/-- `smooth_rate_` after a frame of `len` bytes in `T` milliseconds. -/
def smoothed (T len : UInt32) (smoothRate : ℚ) : ℚ :=
  if T = 0 then smoothRate
  else
    let rate : ℚ := len.toNat * 8 * 1000 / T.toNat
    if smoothRate = 0 then rate else (1 - coeff) * smoothRate + coeff * rate

/-- The loop over `cost_table_`. The rate is smoothed once for each path. -/
def updateCosts (readings : Readings) (T len : UInt32) :
    List (UInt8 × ℚ) → CostLoop → Option CostLoop
  | [], loop => some loop
  | (tempPid, _) :: rest, loop =>
      match loop.tables.psiTable.find? tempPid with
      | none => none
      | some tempPsi =>
          let reading := readings tempPid
          let D := reading.rtt / 2
          let B : ℚ := reading.rate.toUInt32.toNat
          let q : ℚ := reading.pendingLen.toUInt32.toNat
          let lambda := smoothed T len loop.tables.smoothRate
          let S := B - tempPsi * lambda
          if S = 0 ∨ B = 0 then none
          else
            let w := loop.tables.w
            let cost := D.toNat + (1 - w) * T.toNat * loop.tables.averagePacketLen.toNat * 8 / S +
              w * q * 8 * 1000 / B
            updateCosts readings T len rest
              { tables := { loop.tables with
                  smoothRate := lambda, costTable := loop.tables.costTable.set tempPid cost }
                sTable := loop.sTable.insert tempPid S }

/-- The paths with the lowest and the highest cost, each the first one of its kind. -/
def bestAndWorst (costTable : SortedMap UInt8 ℚ) : Option (UInt8 × UInt8) :=
  match costTable.entries with
  | [] => none
  | first :: rest =>
      let (min, max) := rest.foldl (fun (min, max) entry =>
        (if entry.2 < min.2 then entry else min, if entry.2 > max.2 then entry else max))
        (first, first)
      some (min.1, max.1)

/-- What the balance equation reads of a path. -/
def terms (reading : PathReading) (S : ℚ) : CostTerms ℚ :=
  { D := (reading.rtt / 2).toNat
    B := reading.rate.toNat
    Q := reading.pendingLen.toNat * 1000 * 8
    S := S }

/-- The part of the worst share that moves, given the coefficients. -/
def deltaPsi (sqrt : ℚ → ℚ) (coefficients : Coefficients ℚ) (worstPsi : ℚ) : Option ℚ :=
  let { a, b, c } := coefficients
  let Delta := b * b - 4 * a * c
  if Delta < 0 then some worstPsi
  else if a = 0 ∧ b = 0 then none
  else
    let root := if a = 0 then -c / b else (-b + sqrt Delta) / (2 * a)
    let root := if root < 0 then 0 else root
    some (if root > worstPsi then worstPsi else root)

/-- The end of `UpdateCostAndPsiTable`: the quadratic, and the shares of the two paths. -/
def moveShare (sqrt : ℚ → ℚ) (readings : Readings) (best worst : UInt8) (loop : CostLoop) :
    Option EdcldTables :=
  let tables := loop.tables
  match tables.psiTable.find? best, tables.psiTable.find? worst, loop.sTable.find? best,
      loop.sTable.find? worst with
  | some bestPsi, some worstPsi, some S_best, some S_worst =>
      let bestTerms := terms (readings best) S_best
      let worstTerms := terms (readings worst) S_worst
      let L : ℚ := (tables.averagePacketLen * 8).toNat
      if (1 - tables.w) * L = 0 ∨ bestTerms.B = 0 ∨ worstTerms.B = 0 then none
      else
        (deltaPsi sqrt (balanceCoefficients tables.w L tables.smoothRate bestTerms worstTerms)
          worstPsi).map fun deltaPsi =>
            { tables with
              psiTable := (tables.psiTable.set best (bestPsi + deltaPsi)).set worst
                (worstPsi - deltaPsi) }
  | _, _, _, _ => none

/-- `UpdateCostAndPsiTable`. -/
def updateCostAndPsiTable (sqrt : ℚ → ℚ) (readings : Readings) (now len : UInt32)
    (tables : EdcldTables) : Option EdcldTables :=
  (updateCosts readings (now - tables.lastTs) len tables.costTable.entries { tables }).bind
    fun loop => (bestAndWorst loop.tables.costTable).bind fun (best, worst) =>
      moveShare sqrt readings best worst loop

/-! ## Frames -/

/-- The tables by which a frame is split. -/
def splitTables (sqrt : ℚ → ℚ) (readings : Readings) (now size : UInt32)
    (tables : EdcldTables) : Option EdcldTables :=
  if tables.lastTs = 0 then tables.insertUsable readings
  else tables.updateCostAndPsiTable sqrt readings now size

/-- The type of `IncomingPackets`. -/
abbrev Frame := (ℚ → ℚ) → Readings → UInt32 → Packets → UInt32 → EdcldTables →
  Option (EdcldTables × Calls)

/-- `IncomingPackets`, with the function for a frame that is not split. -/
def incomingPackets (whole : List UInt8 → Packets → Option Calls) : Frame :=
  fun sqrt readings now packets size tables =>
    (tables.countPackets (packetNum packets) size).bind fun tables =>
      if Unsplit tables.pids packets then
        (whole tables.pids packets).map fun calls => (tables, calls)
      else
        (tables.splitTables sqrt readings now size).bind fun tables =>
          (dispatchByShares packets tables.psiTable).map fun calls =>
            ({ tables with lastTs := now }, calls)

end EdcldTables

namespace EDCLDSchedule

/-- `EDCLDSchedule::IncomingPackets`. -/
def incomingPackets : EdcldTables.Frame := EdcldTables.incomingPackets roundRobin

end EDCLDSchedule

namespace EDCLDScheduleV1

/-- `SendAllPackesToPath` with the first path. -/
def toFirstPath (pids : List UInt8) (packets : Packets) : Option Calls :=
  pids.head?.map (sendAllPackesToPath packets)

/-- `EDCLDScheduleV1::IncomingPackets`. -/
def incomingPackets : EdcldTables.Frame := EdcldTables.incomingPackets toFirstPath

end EDCLDScheduleV1

end MpVideo.Schedule
