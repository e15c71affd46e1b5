import NachOS.Filesys.SynchDisk
import NachOS.Lib.Rotation
import NachOS.Machine.Interrupt

/-!
# How long the disk takes (machine/disk.cc:113-268, machine/disk.h:53-98, machine/stats.h:54-55)

A request seeks to the track of its sector, waits for the sector to come around and transfers
it; what the head passes meanwhile goes to the track buffer, from which a later read of the
same track may be served. The disk has a clock of its own only in the remainders of
`totalTicks`: a sector passes the head in `RotationTime` ticks, a track is left in `SeekTime`.
-/
namespace NachOS.Filesys
open NachOS.Lib NachOS.Library

def SectorsPerTrack : Int := 32

def RotationTime : Int := 500

def SeekTime : Int := 500

/-- `Disk`; `file` is the UNIX file behind it. -/
structure DiskDevice where
  file : Buf
  active : Bool
  /-- The previous request. -/
  lastSector : Int
  /-- When the track buffer started being loaded. -/
  bufferInit : Int

def DiskRequest.sectorNumber : DiskRequest → Int
  | read sectorNumber => sectorNumber
  | write sectorNumber _ => sectorNumber

def DiskRequest.writing : DiskRequest → Bool
  | read _ => false
  | write _ _ => true

/-- `Disk::ModuloDiff`. -/
def moduloDiff (target source : Int) : Int :=
  let toOffset := target.tmod SectorsPerTrack
  let fromOffset := source.tmod SectorsPerTrack
  ((toOffset - fromOffset) + SectorsPerTrack).tmod SectorsPerTrack

namespace DiskDevice

/-- The constructor, on a file that exists. -/
def new (file : Buf) : DiskDevice := ⟨file, false, 0, 0⟩

/-- `Disk::TimeToSeek`: what it returns, and `*rotation`. -/
def timeToSeek (device : DiskDevice) (totalTicks newSector : Int) : Int × Int :=
  let newTrack := newSector.tdiv SectorsPerTrack
  let oldTrack := device.lastSector.tdiv SectorsPerTrack
  let seek := int32 ((newTrack - oldTrack).natAbs * SeekTime)
  let overshoot := (int32 (totalTicks + seek)).tmod RotationTime
  (seek, if overshoot > 0 then RotationTime - overshoot else 0)

/-- `timeAfter` in `ComputeLatency`; also the new `bufferInit` in `UpdateLast`. -/
def timeAfter (device : DiskDevice) (totalTicks newSector : Int) : Int :=
  int32 (totalTicks + (device.timeToSeek totalTicks newSector).1 +
    (device.timeToSeek totalTicks newSector).2)

/-- The test whether the track buffer applies. -/
def Buffered (device : DiskDevice) (totalTicks newSector : Int) (writing : Bool) : Prop :=
  writing = false ∧ (device.timeToSeek totalTicks newSector).1 = 0 ∧
    (int32 (device.timeAfter totalTicks newSector - device.bufferInit)).tdiv RotationTime >
      moduloDiff newSector (device.bufferInit.tdiv RotationTime)

instance (device : DiskDevice) (totalTicks newSector : Int) (writing : Bool) :
    Decidable (device.Buffered totalTicks newSector writing) :=
  inferInstanceAs (Decidable (_ ∧ _))

/-- `Disk::ComputeLatency`; without a track buffer if compiled with `NOTRACKBUF`. -/
def computeLatency (trackBuffer : Bool) (device : DiskDevice) (totalTicks newSector : Int)
    (writing : Bool) : Int :=
  if trackBuffer = true ∧ device.Buffered totalTicks newSector writing then RotationTime
  else
    let seek := (device.timeToSeek totalTicks newSector).1
    let rotation := (device.timeToSeek totalTicks newSector).2 +
      moduloDiff newSector ((device.timeAfter totalTicks newSector).tdiv RotationTime) *
        RotationTime
    seek + rotation + RotationTime

/-- `Disk::UpdateLast`. -/
def updateLast (device : DiskDevice) (totalTicks newSector : Int) : DiskDevice :=
  { device with
    bufferInit :=
      if (device.timeToSeek totalTicks newSector).1 ≠ 0 then device.timeAfter totalTicks newSector
      else device.bufferInit
    lastSector := newSector }

/-- `Disk::ReadRequest` and `Disk::WriteRequest`, with what a read leaves in the buffer of its
caller; `self` is the object that the interrupt calls. -/
def request (self : Nat) (device : DiskDevice) (k : Interrupt) (r : DiskRequest) :
    Exec (Option SectorData × DiskDevice × Interrupt) := do
  let ticks := device.computeLatency true k.totalTicks r.sectorNumber r.writing
  check (device.active = false) .assertion
  match r.perform device.file with
  | none => .error .assertion
  | some (data, file) => do
    let device := { device with file, active := true }.updateLast k.totalTicks r.sectorNumber
    let k ← k.schedule self ticks .diskInt
    .ok (data, device, k)

/-- `Disk::CallBack`. -/
def callBack (device : DiskDevice) : DiskDevice := { device with active := false }

end DiskDevice

section Arithmetic

variable {target source : Int}

/-- The distance around the track, also from an offset that is negative. -/
theorem moduloDiff_nonneg (positive : 0 ≤ target) (source : Int) :
    0 ≤ moduloDiff target source := by
  unfold moduloDiff SectorsPerTrack
  have low := Int.tmod_nonneg 32 positive
  have high := Int.tmod_lt_of_pos source (show (0 : Int) < 32 by decide)
  apply Int.tmod_nonneg
  omega

theorem moduloDiff_eq (positive : 0 ≤ target) (positive' : 0 ≤ source) :
    moduloDiff target source = (target - source) % SectorsPerTrack := by
  unfold moduloDiff SectorsPerTrack
  rw [Int.tmod_eq_emod_of_nonneg positive, Int.tmod_eq_emod_of_nonneg positive',
    Int.tmod_eq_emod_of_nonneg (by omega)]
  omega

end Arithmetic

namespace DiskDevice

variable {device : DiskDevice} {totalTicks sector : Int} {writing trackBuffer : Bool}

/-- The head is over a track of the disk, and the track buffer was started at some time. -/
structure Positioned (device : DiskDevice) : Prop where
  lastSector : Disk.ValidSector device.lastSector
  bufferInit : 0 ≤ device.bufferInit ∧ device.bufferInit ≤ 2147483647

/-- The time at which the head has reached the track of the sector. -/
def seekEnd (device : DiskDevice) (totalTicks sector : Int) : Int :=
  totalTicks + (sector / SectorsPerTrack - device.lastSector / SectorsPerTrack).natAbs * SeekTime

/-- How long the seek takes. -/
theorem Positioned.seek (positioned : device.Positioned) (valid : Disk.ValidSector sector)
    (totalTicks : Int) :
    totalTicks + (device.timeToSeek totalTicks sector).1 = device.seekEnd totalTicks sector ∧
      0 ≤ (device.timeToSeek totalTicks sector).1 := by
  obtain ⟨low, high⟩ := positioned.lastSector
  obtain ⟨low', high'⟩ := valid
  unfold NumSectors at high high'
  simp only [timeToSeek, seekEnd, SectorsPerTrack, SeekTime, Int.tdiv_eq_ediv_of_nonneg low,
    Int.tdiv_eq_ediv_of_nonneg low']
  rw [int32_of_range (by omega) (by omega)]
  omega

theorem rotation_nonneg (device : DiskDevice) (totalTicks sector : Int) :
    0 ≤ (device.timeToSeek totalTicks sector).2 := by
  have bound := Int.tmod_lt_of_pos (int32 (totalTicks + (device.timeToSeek totalTicks sector).1))
    (show 0 < RotationTime by decide)
  unfold timeToSeek at *
  simp only at bound ⊢
  split
  · omega
  · exact le_rfl

/-- A request takes at least its seek and the transfer of a sector. -/
theorem le_computeLatency (valid : Disk.ValidSector sector) :
    (device.timeToSeek totalTicks sector).1 + RotationTime ≤
      device.computeLatency trackBuffer totalTicks sector writing := by
  unfold computeLatency
  split
  next applies => rw [applies.2.2.1, Int.zero_add]
  next =>
    have rotation := device.rotation_nonneg totalTicks sector
    have distance := moduloDiff_nonneg valid.1
      ((device.timeAfter totalTicks sector).tdiv RotationTime)
    have around := Int.mul_nonneg distance (show 0 ≤ RotationTime by decide)
    simp only
    omega

/-- The request completes before the clock overflows. -/
def InTime (device : DiskDevice) (totalTicks sector : Int) (writing : Bool) : Prop :=
  totalTicks + device.computeLatency true totalTicks sector writing ≤ 2147483647

instance (device : DiskDevice) (totalTicks sector : Int) (writing : Bool) :
    Decidable (device.InTime totalTicks sector writing) :=
  inferInstanceAs (Decidable (_ ≤ _))

/-- No sum of the computation overflows then. -/
theorem Positioned.seekEnd_le (positioned : device.Positioned) (valid : Disk.ValidSector sector)
    (inTime : device.InTime totalTicks sector writing) :
    device.seekEnd totalTicks sector + RotationTime ≤ 2147483647 := by
  have seek := (positioned.seek valid totalTicks).1
  have latency : _ ≤ device.computeLatency true totalTicks sector writing :=
    le_computeLatency valid
  unfold InTime at inTime
  omega

/-- `timeAfter` is the first sector boundary at or after the end of the seek. -/
theorem Positioned.timeAfter_eq (positioned : device.Positioned)
    (valid : Disk.ValidSector sector) (start : 0 ≤ totalTicks)
    (inTime : device.InTime totalTicks sector writing) :
    device.timeAfter totalTicks sector =
        device.seekEnd totalTicks sector + -device.seekEnd totalTicks sector % RotationTime ∧
      totalTicks + (device.timeToSeek totalTicks sector).1 +
        (device.timeToSeek totalTicks sector).2 = device.timeAfter totalTicks sector := by
  obtain ⟨seek, positive⟩ := positioned.seek valid totalTicks
  have last := positioned.seekEnd_le valid inTime
  have rotation : (device.timeToSeek totalTicks sector).2 =
      -device.seekEnd totalTicks sector % RotationTime := by
    have overshoot : (int32 (device.seekEnd totalTicks sector)).tmod RotationTime =
        device.seekEnd totalTicks sector % RotationTime := by
      unfold RotationTime at *
      rw [int32_of_range (by omega) (by omega), Int.tmod_eq_emod_of_nonneg (by omega)]
    rw [← seek] at overshoot ⊢
    unfold timeToSeek RotationTime at *
    simp only at overshoot ⊢
    rw [overshoot]
    split <;> omega
  unfold timeAfter
  rw [seek, rotation]
  unfold RotationTime at *
  rw [int32_of_range (by omega) (by omega)]
  exact ⟨rfl, rfl⟩

/-- When a request is done that is not served from the track buffer. -/
theorem Positioned.done_eq (positioned : device.Positioned) (valid : Disk.ValidSector sector)
    (start : 0 ≤ totalTicks) (inTime : device.InTime totalTicks sector writing)
    (waits : ¬ (trackBuffer = true ∧ device.Buffered totalTicks sector writing)) :
    totalTicks + device.computeLatency trackBuffer totalTicks sector writing =
      device.timeAfter totalTicks sector +
        (sector - device.timeAfter totalTicks sector / RotationTime) % SectorsPerTrack *
          RotationTime + RotationTime := by
  obtain ⟨rounded, sum⟩ := positioned.timeAfter_eq valid start inTime
  have positive : 0 ≤ device.timeAfter totalTicks sector := by
    obtain ⟨seek, nonneg⟩ := positioned.seek valid totalTicks
    rw [rounded]
    unfold RotationTime
    omega
  have position : 0 ≤ device.timeAfter totalTicks sector / RotationTime :=
    Int.ediv_nonneg positive (by decide)
  unfold computeLatency
  rw [if_neg waits, Int.tdiv_eq_ediv_of_nonneg positive, moduloDiff_eq valid.1 position]
  simp only
  omega

theorem Positioned.computeLatency_pos (positioned : device.Positioned)
    (valid : Disk.ValidSector sector) :
    0 < device.computeLatency trackBuffer totalTicks sector writing := by
  have seek := (positioned.seek valid totalTicks).2
  have latency : _ ≤ device.computeLatency trackBuffer totalTicks sector writing :=
    le_computeLatency valid
  unfold RotationTime at latency
  omega

/-- The sector boundaries from a time on. -/
def boundariesFrom (time : Int) : Set Int := {t | RotationTime ∣ t ∧ time ≤ t}

/-- The times at which the head has just passed over the sector, all of it after `boundary`. -/
def passesFrom (boundary sector : Int) : Set Int :=
  {t | RotationTime ∣ t ∧ boundary + RotationTime ≤ t ∧
    t / RotationTime - 1 ≡ sector [ZMOD SectorsPerTrack]}

/-- The latency of a request: it is positive, what is not in the track buffer is transferred
the first time that the sector passes the head after the seek, and what is in the track buffer
comes no later than without it. -/
structure Punctual (device : DiskDevice) (totalTicks sector : Int) (writing : Bool) : Prop where
  positive : 0 < device.computeLatency true totalTicks sector writing
  rotates : ¬ device.Buffered totalTicks sector writing →
    ∃ timeAfter, IsLeast (boundariesFrom (device.seekEnd totalTicks sector)) timeAfter ∧
      IsLeast (passesFrom timeAfter sector)
        (totalTicks + device.computeLatency true totalTicks sector writing)
  buffered : device.Buffered totalTicks sector writing →
    device.computeLatency true totalTicks sector writing ≤
      device.computeLatency false totalTicks sector writing

/-- The sector of the last request; the head starts at the first sector. -/
def previousSector : List (Int × Int) → Int
  | [] => 0
  | (_, sector) :: _ => sector

/-- The time since which the track buffer has been loaded, from the clock and the sector of
each request so far, the last one first: the first sector boundary at or after the end of the
last seek to another track. -/
inductive LoadedSince : List (Int × Int) → Int → Prop
  | start : LoadedSince [] 0
  | stays {earlier : List (Int × Int)} {totalTicks sector time : Int}
      (track : sector / SectorsPerTrack = previousSector earlier / SectorsPerTrack)
      (before : LoadedSince earlier time) : LoadedSince ((totalTicks, sector) :: earlier) time
  | seeks {earlier : List (Int × Int)} {totalTicks sector time : Int}
      (track : sector / SectorsPerTrack ≠ previousSector earlier / SectorsPerTrack)
      (boundary : IsLeast (boundariesFrom (totalTicks +
        (sector / SectorsPerTrack - previousSector earlier / SectorsPerTrack).natAbs * SeekTime))
        time) : LoadedSince ((totalTicks, sector) :: earlier) time

/-- The device remembers of the requests so far what the next latency depends on. -/
structure Remembers (device : DiskDevice) (requests : List (Int × Int)) : Prop where
  lastSector : device.lastSector = previousSector requests
  bufferInit : LoadedSince requests device.bufferInit

theorem Positioned.isLeast_timeAfter (positioned : device.Positioned)
    (valid : Disk.ValidSector sector) (start : 0 ≤ totalTicks)
    (inTime : device.InTime totalTicks sector writing) :
    IsLeast (boundariesFrom (device.seekEnd totalTicks sector))
      (device.timeAfter totalTicks sector) := by
  rw [(positioned.timeAfter_eq valid start inTime).1]
  exact isLeast_roundUp (by decide)

/-- A request adds itself to what the device remembers. -/
theorem Remembers.updateLast {requests : List (Int × Int)} (remembers : device.Remembers requests)
    (positioned : device.Positioned) (valid : Disk.ValidSector sector) (start : 0 ≤ totalTicks)
    (inTime : device.InTime totalTicks sector writing) :
    (device.updateLast totalTicks sector).Remembers ((totalTicks, sector) :: requests) := by
  have seek := (positioned.seek valid totalTicks).1
  have boundary := positioned.isLeast_timeAfter valid start inTime
  unfold seekEnd at seek boundary
  rw [remembers.lastSector] at seek boundary
  unfold SeekTime at seek
  refine ⟨rfl, ?_⟩
  unfold DiskDevice.updateLast
  by_cases track : sector / SectorsPerTrack = previousSector requests / SectorsPerTrack
  · have stays : (device.timeToSeek totalTicks sector).1 = 0 := by
      rw [track, Int.sub_self] at seek
      omega
    simp only [stays, ne_eq, not_true_eq_false, if_false]
    exact .stays track remembers.bufferInit
  · have moves : (device.timeToSeek totalTicks sector).1 ≠ 0 := by omega
    simp only [moves, ne_eq, not_false_eq_true, if_true]
    exact .seeks track boundary

theorem Positioned.punctual (positioned : device.Positioned) (valid : Disk.ValidSector sector)
    (start : 0 ≤ totalTicks) (inTime : device.InTime totalTicks sector writing) :
    device.Punctual totalTicks sector writing where
  positive := positioned.computeLatency_pos valid
  rotates := by
    intro waits
    have boundary := positioned.isLeast_timeAfter valid start inTime
    refine ⟨device.timeAfter totalTicks sector, boundary, ?_⟩
    rw [positioned.done_eq valid start inTime fun applies => waits applies.2]
    exact isLeast_rotation (by decide) (by decide) boundary.1.1
  buffered := by
    intro applies
    have without : (device.timeToSeek totalTicks sector).1 + RotationTime ≤
        device.computeLatency false totalTicks sector writing := le_computeLatency valid
    rw [applies.2.1, Int.zero_add] at without
    unfold computeLatency at without ⊢
    rw [if_pos ⟨rfl, applies⟩]
    exact without

section Requests

variable {k : Interrupt} {r : DiskRequest}

theorem perform_valid (valid : Disk.ValidSector r.sectorNumber) (file : Buf) :
    ∃ data file', r.perform file = some (data, file') := by
  cases r with
  | read sectorNumber =>
    have inside : Disk.ValidSector sectorNumber := valid
    simp only [DiskRequest.perform, readRequest, if_pos inside]
    exact ⟨_, _, rfl⟩
  | write sectorNumber data =>
    have inside : Disk.ValidSector sectorNumber := valid
    simp only [DiskRequest.perform, writeRequest, if_pos inside]
    exact ⟨_, _, rfl⟩

/-- A request to a device that is not busy: no assertion fails, and the interrupt is pending
for the time at which the request is done. -/
theorem Positioned.request (positioned : device.Positioned) (self : Nat)
    (idle : device.active = false) (valid : Disk.ValidSector r.sectorNumber) (timely : k.Timely)
    (inTime : device.InTime k.totalTicks r.sectorNumber r.writing) :
    ∃ data file, r.perform device.file = some (data, file) ∧ device.request self k r =
      .ok (data, { device with file, active := true }.updateLast k.totalTicks r.sectorNumber,
        { k with
          pending := place PendingCompare ⟨self, k.totalTicks +
            device.computeLatency true k.totalTicks r.sectorNumber r.writing, .diskInt,
            k.scheduled⟩ k.pending
          scheduled := k.scheduled + 1 }) := by
  obtain ⟨data, file, performed⟩ := perform_valid valid device.file
  have positive : 0 < device.computeLatency true k.totalTicks r.sectorNumber r.writing :=
    positioned.computeLatency_pos valid
  have scheduled := timely.schedule_positive self .diskInt positive
    (Int.lt_add_one_of_le inTime)
  refine ⟨data, file, performed, ?_⟩
  simp only [DiskDevice.request, check_true idle, performed, scheduled, Exec.ok_bind]

end Requests

end DiskDevice

/-- The disk in a sequence of requests. -/
structure DiskRun where
  device : DiskDevice
  /-- When the last request is done. -/
  done : Int
  /-- The clock and the sector of each request so far, the last one first. -/
  requests : List (Int × Int)

inductive DiskEvent where
  /-- A request, with the clock and the interrupts as they are at that time. -/
  | request (k : Interrupt) (r : DiskRequest)
  | callBack

namespace DiskRun

def next (self : Nat) : DiskEvent → DiskRun → Option DiskRun
  | .request k r, s => (s.device.request self k r).toOption.map fun result =>
    ⟨result.2.1, k.totalTicks + s.device.computeLatency true k.totalTicks r.sectorNumber r.writing,
      (k.totalTicks, r.sectorNumber) :: s.requests⟩
  | .callBack, s => some { s with device := s.device.callBack }

/-- A request to a sector of the disk, after the one before it has completed. The interrupts
are as in every run of the interrupt simulation (`Interrupt.Kept.of_reachable`). -/
def Issued : DiskEvent → DiskRun → Prop
  | .request k r, s => Disk.ValidSector r.sectorNumber ∧ s.device.active = false ∧
    s.done ≤ k.totalTicks ∧ k.Timely ∧
    s.device.InTime k.totalTicks r.sectorNumber r.writing
  | .callBack, _ => True

end DiskRun

def diskMachine (self : Nat) : Machine DiskRun DiskEvent where
  init s := ∃ file, s = ⟨.new file, 0, []⟩
  next := DiskRun.next self

namespace DiskRun

variable {self : Nat} {s s' : DiskRun}

structure Invariant (s : DiskRun) : Prop where
  positioned : s.device.Positioned
  remembers : s.device.Remembers s.requests
  done : 0 ≤ s.done

theorem next_invariant {e : DiskEvent} (inv : s.Invariant) (issued : Issued e s)
    (step : next self e s = some s') : s'.Invariant := by
  cases e with
  | callBack =>
    cases step
    exact ⟨⟨inv.positioned.lastSector, inv.positioned.bufferInit⟩,
      ⟨inv.remembers.lastSector, inv.remembers.bufferInit⟩, inv.done⟩
  | request k r =>
    obtain ⟨valid, idle, after, timely, inTime⟩ := issued
    have start := timely.start
    obtain ⟨data, file, _, run⟩ := inv.positioned.request self idle valid timely inTime
    obtain ⟨rounded, sum⟩ := inv.positioned.timeAfter_eq valid start inTime
    have positive : 0 < s.device.computeLatency true k.totalTicks r.sectorNumber r.writing :=
      inv.positioned.computeLatency_pos valid
    have seek := inv.positioned.seek valid k.totalTicks
    have last := inv.positioned.seekEnd_le valid inTime
    have bounds : 0 ≤ s.device.timeAfter k.totalTicks r.sectorNumber ∧
        s.device.timeAfter k.totalTicks r.sectorNumber ≤ 2147483647 := by
      rw [rounded]
      unfold RotationTime at *
      omega
    simp only [next, run, Except.toOption, Option.map_some, Option.some.injEq] at step
    subst step
    have remembers := inv.remembers.updateLast inv.positioned valid start inTime
    refine ⟨⟨valid, ?_⟩, ⟨remembers.lastSector, remembers.bufferInit⟩, by simp only; omega⟩
    simp only [DiskDevice.updateLast]
    split
    · exact bounds
    · exact inv.positioned.bufferInit

theorem Invariant.of_reachable (reachable : (diskMachine self).ReachableUnder Issued s) :
    s.Invariant := by
  apply reachable.invariant
  · rintro _ ⟨file, rfl⟩
    exact ⟨⟨show Disk.ValidSector 0 by decide,
      show (0 : Int) ≤ 0 ∧ (0 : Int) ≤ 2147483647 by decide⟩, ⟨rfl, .start⟩, le_rfl⟩
  · intro e s s' inv issued step
    exact next_invariant inv issued step

end DiskRun

/-- Every request of every sequence returns, with its interrupt pending, and its latency is
right: the seek goes from the track of the request before, and the device remembers of this
request what the next one needs. -/
theorem disk_requests_punctual {self : Nat} {s : DiskRun}
    (reachable : (diskMachine self).ReachableUnder DiskRun.Issued s) {k : Interrupt}
    {r : DiskRequest} (issued : DiskRun.Issued (.request k r) s) :
    (∃ data device, s.device.request self k r = .ok (data, device, { k with
        pending := place PendingCompare ⟨self, k.totalTicks +
          s.device.computeLatency true k.totalTicks r.sectorNumber r.writing, .diskInt,
          k.scheduled⟩ k.pending
        scheduled := k.scheduled + 1 }) ∧
      r.perform s.device.file = some (data, device.file) ∧ device.active = true ∧
      device.Remembers ((k.totalTicks, r.sectorNumber) :: s.requests)) ∧
    s.device.Remembers s.requests ∧
    s.device.Punctual k.totalTicks r.sectorNumber r.writing := by
  have inv := DiskRun.Invariant.of_reachable reachable
  obtain ⟨valid, idle, after, timely, inTime⟩ := issued
  obtain ⟨data, file, performed, run⟩ := inv.positioned.request self idle valid timely inTime
  have remembers := inv.remembers.updateLast inv.positioned valid timely.start inTime
  refine ⟨⟨data, _, run, performed, rfl, ?_⟩, inv.remembers,
    inv.positioned.punctual valid timely.start inTime⟩
  exact ⟨remembers.lastSector, remembers.bufferInit⟩

/-- The clock at some time, with no interrupt pending. -/
def clockAt (totalTicks : Nat) : Interrupt :=
  { Interrupt.initial with totalTicks, systemTicks := totalTicks }

theorem clockAt_timely {totalTicks : Nat} (small : totalTicks < 2147483648) :
    (clockAt totalTicks).Timely := by
  constructor <;> simp [clockAt, Interrupt.initial, Interrupt.history]
  omega

/-- The state after sector 5 was read at the start. -/
def sectorRead : DiskRun := ⟨⟨fun _ => 0, false, 5, 0⟩, 3000, [(0, 5)]⟩

theorem sectorRead_reachable : (diskMachine 0).ReachableUnder DiskRun.Issued sectorRead := by
  have first : DiskRun.Issued (.request (clockAt 0) (.read 5))
      ⟨.new fun _ => 0, 0, []⟩ :=
    ⟨by decide, rfl, by decide, clockAt_timely (by decide), by decide⟩
  have start : (diskMachine 0).ReachableUnder DiskRun.Issued ⟨.new fun _ => 0, 0, []⟩ :=
    .init ⟨_, rfl⟩
  have requested : (diskMachine 0).next (.request (clockAt 0) (.read 5))
      ⟨.new fun _ => 0, 0, []⟩ = some ⟨⟨fun _ => 0, true, 5, 0⟩, 3000, [(0, 5)]⟩ := rfl
  exact (start.step first requested).step (e := .callBack) trivial rfl

/-- Sector 3 of the same track is in the track buffer then. -/
theorem disk_requests_punctual_buffered :
    sectorRead.device.Buffered 3010 3 false ∧
      sectorRead.device.computeLatency true 3010 3 false = 500 ∧
      sectorRead.device.Punctual 3010 3 false := by
  have second : DiskRun.Issued (.request (clockAt 3010) (.read 3)) sectorRead :=
    ⟨by decide, rfl, by decide, clockAt_timely (by decide), by decide⟩
  exact ⟨by decide, by decide, (disk_requests_punctual sectorRead_reachable second).2.2⟩

end NachOS.Filesys
