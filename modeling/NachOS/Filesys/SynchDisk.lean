import NachOS.Threads.Driver
import NachOS.Filesys.FileHeader

/-!
# The synchronous disk (filesys/synchdisk.cc:57-94, machine/disk.cc:113-163)

The simulated disk is a UNIX file: a magic number of `MagicSize` bytes, then the
sectors. A request transfers its sector at once and schedules an interrupt;
`ReadSector` and `WriteSector` hold a lock from before the request until the
interrupt handler has signalled its completion.

How long a request takes (`ComputeLatency`, `UpdateLast`) only decides when the
interrupt comes, which is left open here: it may come at any time.
-/
namespace NachOS.Filesys
open NachOS.Lib NachOS.Threads

def MagicSize : Nat := 4

/-- What the buffer of a transfer holds. -/
abbrev SectorData := Fin SectorSize → Byte

/-- `SectorSize * sectorNumber + MagicSize`. -/
def sectorOffset (sectorNumber : Int) : Nat := SectorSize * sectorNumber.toNat + MagicSize

/-- `Lseek` to `offset`, then `Read(fileno, data, SectorSize)`. -/
def transferIn (file : Buf) (offset : Nat) : SectorData := fun i => file (offset + i)

/-- `Lseek` to `offset`, then `WriteFile(fileno, data, SectorSize)`. -/
def transferOut (file : Buf) (offset : Nat) (data : SectorData) : Buf := fun i =>
  if h : offset ≤ i ∧ i < offset + SectorSize then data ⟨i - offset, by omega⟩ else file i

inductive DiskRequest where
  | read (sectorNumber : Int)
  | write (sectorNumber : Int) (data : SectorData)
  deriving DecidableEq

/-- `Disk::ReadRequest` past its first assertion. -/
def readRequest (sectorNumber : Int) (file : Buf) : Option (SectorData × Buf) :=
  if Disk.ValidSector sectorNumber then some (transferIn file (sectorOffset sectorNumber), file)
  else none

/-- `Disk::WriteRequest` past its first assertion. -/
def writeRequest (sectorNumber : Int) (data : SectorData) (file : Buf) : Option Buf :=
  if Disk.ValidSector sectorNumber then some (transferOut file (sectorOffset sectorNumber) data)
  else none

/-- The request, with what it leaves in the caller's buffer if it is a read. -/
def DiskRequest.perform : DiskRequest → Buf → Option (Option SectorData × Buf)
  | read sectorNumber, file => (readRequest sectorNumber file).map fun (data, file) => (some data, file)
  | write sectorNumber data, file => (writeRequest sectorNumber data file).map fun file => (none, file)

abbrev SynchDisk (Thread : Type) := Driver Thread DiskRequest (Option SectorData) Buf

section SynchDisk

variable {Thread : Type} [DecidableEq Thread]

/-- `SynchDisk::ReadSector`, called by `t`. -/
def SynchDisk.readSector (t : Thread) (sectorNumber : Int) : DriverEvent Thread DiskRequest :=
  .call t (.read sectorNumber)

/-- `SynchDisk::WriteSector`, called by `t`. -/
def SynchDisk.writeSector (t : Thread) (sectorNumber : Int) (data : SectorData) :
    DriverEvent Thread DiskRequest :=
  .call t (.write sectorNumber data)

/-- One step of a thread or of the disk's interrupt; a request sets `active`. -/
def SynchDisk.step (e : DriverEvent Thread DiskRequest) (s : SynchDisk Thread) :
    Option (Except RequestFault (SynchDisk Thread)) :=
  Driver.step DiskRequest.perform true e s

/-- All interleavings on a disk whose file is `original` at the start. -/
def synchDiskMachine (Thread : Type) [DecidableEq Thread] (original : Buf) :
    Machine (SynchDisk Thread) (DriverEvent Thread DiskRequest) :=
  driverMachine DiskRequest.perform true original

/-- The data of the last write to a sector among the calls. -/
def lastWrite (sectorNumber : Int) (calls : List (Call Thread DiskRequest (Option SectorData))) :
    Option SectorData :=
  calls.reverse.findSome? fun call =>
    match call.request with
    | .read _ => none
    | .write n data => if n = sectorNumber then some data else none

theorem transferIn_same {file : Buf} {offset : Nat} {data : SectorData} :
    transferIn (transferOut file offset data) offset = data := by
  funext i
  simp [transferIn, transferOut]

/-- A transfer to one sector leaves the others alone. -/
theorem transferIn_other {file : Buf} {m n : Int} {data : SectorData} (hm : Disk.ValidSector m)
    (hn : Disk.ValidSector n) (h : m ≠ n) :
    transferIn (transferOut file (sectorOffset m) data) (sectorOffset n) =
      transferIn file (sectorOffset n) := by
  funext i
  have hi : (i : Nat) < 128 := i.isLt
  have outside : ¬ (sectorOffset m ≤ sectorOffset n + i ∧
      sectorOffset n + i < sectorOffset m + SectorSize) := by
    obtain ⟨_, _⟩ := hm
    obtain ⟨_, _⟩ := hn
    unfold sectorOffset SectorSize
    omega
  simp only [transferIn, transferOut, outside, dif_neg, not_false_iff]

omit [DecidableEq Thread] in
theorem lastWrite_snoc {sectorNumber : Int}
    {calls : List (Call Thread DiskRequest (Option SectorData))}
    {call : Call Thread DiskRequest (Option SectorData)} :
    lastWrite sectorNumber (calls ++ [call]) =
      match call.request with
      | .read _ => lastWrite sectorNumber calls
      | .write n data => if n = sectorNumber then some data else lastWrite sectorNumber calls := by
  unfold lastWrite
  rw [List.reverse_append, List.reverse_singleton, List.singleton_append, List.findSome?_cons]
  cases call.request with
  | read n => rfl
  | write n data =>
    by_cases h : n = sectorNumber
    · simp [h]
    · simp [h]

omit [DecidableEq Thread] in
/-- The file holds, sector by sector, what was last written there. -/
theorem performs_lastWrite {original file : Buf}
    {calls : List (Call Thread DiskRequest (Option SectorData))}
    (h : Performs DiskRequest.perform original calls file) {n : Int} (hn : Disk.ValidSector n) :
    transferIn file (sectorOffset n) =
      (lastWrite n calls).getD (transferIn original (sectorOffset n)) := by
  induction h with
  | nil => rfl
  | @snoc calls file file' call _ performed ih =>
    rw [lastWrite_snoc]
    cases hreq : call.request with
    | read m =>
      simp only [hreq, DiskRequest.perform, readRequest, Option.map_eq_some_iff] at performed
      obtain ⟨_, hread, hout⟩ := performed
      obtain ⟨_, hread⟩ := Option.ite_none_right_eq_some.mp hread
      cases hread
      rw [← (Prod.mk.inj hout).2]
      exact ih
    | write m data =>
      simp only [hreq, DiskRequest.perform, writeRequest, Option.map_eq_some_iff] at performed
      obtain ⟨_, hwrite, hout⟩ := performed
      obtain ⟨hm, hwrite⟩ := Option.ite_none_right_eq_some.mp hwrite
      cases hwrite
      rw [← (Prod.mk.inj hout).2]
      by_cases h : m = n
      · subst h
        simp [transferIn_same]
      · simp only [h, if_false]
        rw [transferIn_other hm hn h, ih]

/-- Every interleaving of `ReadSector` and `WriteSector` with disk interrupts:
the assertion `!active` never fails, at most one interrupt is pending, the
completion semaphore is 0 or 1, a call that returned has had the interrupt of
its own request, and a read returned what was last written to its sector by the
requests made before its own (what the disk held at the start, if there was
none). -/
theorem synchDisk_safe [Fintype Thread] (original : Buf) (s : SynchDisk Thread)
    (h : (synchDiskMachine Thread original).Reachable s) :
    (∀ e, SynchDisk.step e s ≠ some (.error .busy)) ∧
    s.exchange.pending.length ≤ 1 ∧
    (s.exchange.completion.sem.value = 0 ∨ s.exchange.completion.sem.value = 1) ∧
    (∀ serial call, (serial, call) ∈ s.returned →
      s.calls[serial]? = some call ∧ serial ∈ s.exchange.fired) ∧
    (∀ serial call sectorNumber, (serial, call) ∈ s.returned →
      call.request = .read sectorNumber →
      call.reply = some ((lastWrite sectorNumber (s.calls.take serial)).getD
        (transferIn original (sectorOffset sectorNumber)))) := by
  obtain ⟨inv, linv⟩ := DriverInvariant.of_reachable h
  refine ⟨fun e => inv.step_ne_busy linv e, inv.exchange.bounds.1, inv.exchange.bounds.2, ?_, ?_⟩
  · intro serial call returned
    exact (inv.returned serial call returned).symm
  · intro serial call n returned hread
    obtain ⟨_, at_serial⟩ := inv.returned serial call returned
    obtain ⟨before, after, performs, performed⟩ := inv.performs.get at_serial
    simp only [hread, DiskRequest.perform, readRequest, Option.map_eq_some_iff] at performed
    obtain ⟨_, transfer, hout⟩ := performed
    obtain ⟨hn, transfer⟩ := Option.ite_none_right_eq_some.mp transfer
    cases transfer
    rw [← (Prod.mk.inj hout).1, performs_lastWrite performs hn]

end SynchDisk

/-- `t` writes sector 3 while `u` waits for the lock to read it. -/
def writeThenRead {Thread : Type} (t u : Thread) : List (DriverEvent Thread DiskRequest) :=
  [SynchDisk.writeSector t 3 fun _ => 0x41, .step t, SynchDisk.readSector u 3, .step t, .step t,
    .interrupt 0, .step t, .step t, .step t, .step t,
    .step u, .step u, .step u, .step u, .interrupt 1, .step u, .step u, .step u, .step u]

theorem synchDisk_safe_write_then_read :
    ∃ s, (synchDiskMachine (Fin 2) fun _ => 0).run (writeThenRead 0 1) (.initial fun _ => 0) =
        some s ∧
      s.exchange.pending.length ≤ 1 ∧
      ∃ call, (1, call) ∈ s.returned ∧ 1 ∈ s.exchange.fired ∧ call.reply = some fun _ => 0x41 := by
  have replay : ((synchDiskMachine (Fin 2) fun _ => 0).run (writeThenRead 0 1)
      (.initial fun _ => 0)).map (fun s =>
        (s.returned.map fun (serial, call) => (serial, call.request),
          lastWrite 3 (s.calls.take 1))) =
      some ([(0, .write 3 fun _ => 0x41), (1, .read 3)], some fun _ => 0x41) := by decide +kernel
  obtain ⟨s, hs, view⟩ := Option.map_eq_some_iff.mp replay
  obtain ⟨returned, last⟩ := Prod.mk.inj view
  have safe := synchDisk_safe (fun _ => 0) s
    ((Machine.Reachable.init (M := synchDiskMachine (Fin 2) fun _ => 0) rfl).run
      (writeThenRead 0 1) hs)
  have second : (1, DiskRequest.read 3) ∈ s.returned.map fun (n, c) => (n, c.request) := by
    rw [returned]
    exact List.mem_cons_of_mem _ List.mem_cons_self
  obtain ⟨⟨serial, call⟩, member, hview⟩ := List.mem_map.mp second
  obtain ⟨rfl, hread⟩ := Prod.mk.inj hview
  refine ⟨s, hs, safe.2.1, call, member, (safe.2.2.2.1 1 call member).2, ?_⟩
  rw [safe.2.2.2.2 1 call 3 member hread, last]
  rfl

end NachOS.Filesys
