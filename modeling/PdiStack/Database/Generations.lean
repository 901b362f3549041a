import PdiStack.Database.Migration
import PdiStack.Database.TableRegistry

/-!
# Firmware after firmware

A device keeps its store while its firmware is replaced.  Each firmware registers its
tables, mounts the store that the one before has left, and works on the records.  What is
read at last is what was written, as far as every firmware in between had a slot for it.
-/

namespace PdiStack.Generations

open PdiTypes FlatStore LayoutEngine Records Serving Packing Mounting TableMap Migration
  TableRegistry StateMachine List

/-- The registrations at the boot of a firmware, and what is done while it runs. -/
structure Firmware where
  booting : List RegisteredTable
  operations : List Operation

/-- The tables of the firmware that runs, and the engine. -/
structure Device where
  tables : List StructTables
  layout : DbLayout

variable (build : Build)

def Firmware.tables (firmware : Firmware) : List StructTables :=
  tablesOf (run (registerTable build) firmware.booting []).2

def Device.boot (device : Device) (firmware : Firmware) : PdiErr × DbLayout :=
  mount build (freshLayout device.layout.store) (some device.layout.store)
    (firmware.tables build) true

def Device.update (device : Device) (firmware : Firmware) :
    (PdiErr × List (Operation × PdiErr)) × Device :=
  let (status, mounted) := device.boot build firmware
  let (history, layout) :=
    run (Operation.step build (firmware.tables build)) firmware.operations mounted
  ((status, history), { tables := firmware.tables build, layout := layout })

/-- The store can be mounted, and no table that stays changes its secret flag. -/
def Compatible (device : Device) (firmware : Firmware) : Prop :=
  (device.boot build firmware).1 = .ok ∧
    ∀ old ∈ device.tables, ∀ table ∈ firmware.tables build, old.tableId = table.tableId →
      old.tableSecret = table.tableSecret

/-- The effect of a firmware on the map: what fits its slots is kept, and then written to. -/
def carry (contents : UInt16 → Option TableRecord) :
    Firmware × PdiErr × List (Operation × PdiErr) → UInt16 → Option TableRecord
  | (firmware, _, history) =>
    history.foldl Operation.apply (migrate build (firmware.tables build) contents)

/-- The map that a device has come to stand for, from an empty one on. -/
def recordsAfter (history : List (Firmware × PdiErr × List (Operation × PdiErr))) :
    UInt16 → Option TableRecord :=
  history.foldl (carry build) fun _ => none

def Holds (tables : List StructTables) (layout : DbLayout)
    (contents : UInt16 → Option TableRecord) : Prop :=
  Serves build tables layout ∧ Represents build layout contents

variable {build} {device : Device} {contents : UInt16 → Option TableRecord} {firmware : Firmware}

theorem holds_update (hmounted : Holds build (firmware.tables build)
      (device.boot build firmware).2 (migrate build (firmware.tables build) contents)) :
    Holds build (firmware.tables build) (device.update build firmware).2.layout
      (carry build contents (firmware, (device.update build firmware).1)) := by
  refine run_simulation Operation.apply (Holds build (firmware.tables build)) ?_
    firmware.operations hmounted
  rintro layout contents operation ⟨hlayout, hcontents⟩
  have hsound := stepSound hlayout hcontents operation
  exact ⟨hsound.serves, hsound.represents⟩

theorem holds_of_compatible (hcompatible : Compatible build device firmware)
    (hholds : Holds build device.tables device.layout contents) :
    Holds build (firmware.tables build) (device.update build firmware).2.layout
      (carry build contents (firmware, (device.update build firmware).1)) := by
  obtain ⟨hstatus, hsecret⟩ := hcompatible
  have hboot := registered_boot build firmware.booting
  exact holds_update (mount_migrates hholds.1 hholds.2 hboot.nodup hboot.length_le hsecret
    (Prod.ext hstatus rfl))

/-- Take a store without a superblock and any firmwares, of which the first one fits the store
and every other one is compatible with the one before.  The last of them reads, for each of
its tables, what was last written to it and carried on since then. -/
theorem readRecord_after_updates (build : Build) (store : Store UInt8) (first : Firmware)
    (later : List Firmware) (hfits : slotsEnd build (first.tables build) ≤ store.capacity)
    (hcapacity : store.capacity ≤ 65535)
    (hblank : (readSuperblock build (freshLayout store)).1 ≠ .ok)
    (hcompatible : Allowed (Device.update build) (Compatible build) later
      (Device.update build ⟨[], freshLayout store⟩ first).2)
    {history : List (Firmware × PdiErr × List (Operation × PdiErr))} {device : Device}
    (hrun : run (Device.update build) (first :: later) ⟨[], freshLayout store⟩ = (history, device))
    {table : StructTables} (htable : table ∈ device.tables) (cap : UInt16) :
    ∃ version, readRecord build device.layout table.tableId cap true =
        { status := .ok
          bytes := (payloadOf (recordsAfter build history table.tableId)).take cap.toNat
          len := UInt16.ofNat
            (min (payloadOf (recordsAfter build history table.tableId)).length cap.toNat)
          version := version } ∧
      ∀ record, recordsAfter build history table.tableId = some record →
        version = record.version := by
  have hboot := registered_boot build first.booting
  obtain ⟨booted, hmount, hserves, hempty⟩ := mount_blank hboot.length_le hboot.nodup hfits
    (Nat.lt_succ_of_le hcapacity) hblank true
  have hnone : migrate build (first.tables build) (fun _ => none) = fun _ => none := by
    funext id
    unfold migrate
    split <;> simp [carriedRecord]
  have hbooted : (Device.boot build ⟨[], freshLayout store⟩ first).2 = booted :=
    congrArg Prod.snd hmount
  have hfirst := @holds_update build ⟨[], freshLayout store⟩ (fun _ => none) first
    (by rw [hbooted, hnone]; exact ⟨hserves, hempty⟩)
  have hlast := run_simulation_of_allowed (carry build)
    (fun device contents => Holds build device.tables device.layout contents)
    (fun _ _ _ hcompatible hholds => holds_of_compatible hcompatible hholds)
    later hcompatible hfirst
  cases hrun
  exact readRecord_of_serves hlast.1 hlast.2 htable cap

def sampleFirmware : Firmware :=
  { booting := sampleTables.map (⟨·, none⟩)
    operations := [.writeRecord 4 { bytes := [9], length_lt := by decide } 3 true fun _ => 0] }

def grownFirmware : Firmware := { booting := sampleRegistry.map (⟨·, none⟩), operations := [] }

def sampleLife := run (Device.update sampleBuild) [sampleFirmware, grownFirmware]
  ⟨[], freshLayout sampleStore⟩

theorem record_survives_update :
    ∃ version, readRecord sampleBuild sampleLife.2.layout 4 24 true =
      { status := .ok, bytes := [9], len := 1, version := version } := by
  obtain ⟨version, hread, -⟩ := readRecord_after_updates sampleBuild sampleStore sampleFirmware
    [grownFirmware] (by decide) (by decide) (by decide)
    ⟨⟨by decide +kernel, by decide +kernel⟩, trivial⟩
    (Prod.mk.eta (p := sampleLife)).symm
    (show ⟨4, 24, 4, false⟩ ∈ sampleLife.2.tables by decide +kernel) 24
  have hbytes : payloadOf (recordsAfter sampleBuild sampleLife.1 4) = [9] := by decide +kernel
  rw [hbytes] at hread
  exact ⟨version, hread⟩

end PdiStack.Generations
