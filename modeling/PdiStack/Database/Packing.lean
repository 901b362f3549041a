import PdiStack.Database.Serving

/-!
# Packing a directory

`format` and `repack` lay the slots of the registered tables out one behind the
other.  `PackedWith` says what the packing loop has done after a number of tables,
and from it follows that a complete packing is a good directory: the slots are
inside the store, pairwise disjoint, and one for each table.
-/

namespace PdiStack.Packing

open FlatStore PdiTypes LayoutEngine Framing Records Serving List

variable (build : Build)

def slotSizes (tables : List StructTables) : List ℕ :=
  tables.map fun table => (dbSlotFor build table).toNat

def slotStart (tables : List StructTables) (index : ℕ) : ℕ :=
  rangeStart (dbPayloadStart build) (slotSizes build tables) index

def slotsEnd (tables : List StructTables) : ℕ := dbPayloadStart build + (slotSizes build tables).sum

/-- The packing after the given tables have been placed. -/
structure PackedWith (build : Build) (old : ℕ → DbDirEntry) (oldEntries : ℕ)
    (tables : List StructTables) (packing : Packing) : Prop where
  entries_eq : packing.entries = tables.length
  offset_eq : packing.offset = slotsEnd build tables
  entry_eq : ∀ index table, tables[index]? = some table →
    (packing.directory index, packing.source index) =
      carryRecord old oldEntries (emptyEntry build table (slotStart build tables index))

theorem slotsEnd_append_singleton (tables : List StructTables)
    (table : StructTables) :
    slotsEnd build (tables ++ [table]) = slotsEnd build tables + (dbSlotFor build table).toNat := by
  simp [slotsEnd, slotSizes, add_assoc]

theorem slotsEnd_append_le (tables more : List StructTables) :
    slotsEnd build tables ≤ slotsEnd build (tables ++ more) := by
  simp [slotsEnd, slotSizes]

/-- Placing a table extends the packing by that table. -/
theorem packedWith_packTable {build : Build} {old : ℕ → DbDirEntry} {oldEntries : ℕ}
    {tables : List StructTables} {packing : Packing}
    (hpacked : PackedWith build old oldEntries tables packing) {table : StructTables} :
    PackedWith build old oldEntries (tables ++ [table])
      (packTable build old oldEntries packing table) where
  entries_eq := by simp [packTable, hpacked.entries_eq]
  offset_eq := by simp [packTable, hpacked.offset_eq, slotsEnd_append_singleton]
  entry_eq index placed hplaced := by
    have hstart : index ≤ tables.length →
        slotStart build (tables ++ [table]) index = slotStart build tables index := by
      intro hindex
      simp only [slotStart, slotSizes, map_append]
      exact rangeStart_append _ _ _ (by simpa using hindex)
    by_cases hlast : index = packing.entries
    · subst hlast
      have hlength := hpacked.entries_eq
      have htable : table = placed := by
        rw [hlength] at hplaced
        simpa using hplaced
      have hend : slotStart build tables packing.entries = packing.offset := by
        rw [hpacked.offset_eq, hlength, slotStart, slotsEnd, rangeStart, slotSizes]
        rw [take_of_length_le (by simp)]
      subst htable
      rw [hstart hlength.le, hend]
      simp [packTable]
    · have hlt : index < tables.length := by
        have hbound := (List.getElem?_eq_some_iff.mp hplaced).1
        have hlength := hpacked.entries_eq
        simp only [length_append, length_singleton] at hbound
        omega
      rw [getElem?_append_left hlt] at hplaced
      rw [hstart hlt.le, ← hpacked.entry_eq index placed hplaced]
      simp [packTable, Function.update_of_ne hlast]

/-- A packing that is reported complete holds every table and stays inside the
store. -/
theorem packTables_of_ok {build : Build} {capacity : ℕ} {old : ℕ → DbDirEntry} {oldEntries : ℕ}
    (tables : List StructTables) :
    ∀ (done : List StructTables) (packing result : Packing),
    PackedWith build old oldEntries done packing →
    done.length + tables.length ≤ build.maxTables → slotsEnd build done ≤ capacity →
    packTables build capacity old oldEntries tables packing = (.ok, result) →
    PackedWith build old oldEntries (done ++ tables) result ∧
      slotsEnd build (done ++ tables) ≤ capacity := by
  induction tables with
  | nil =>
    intro done packing result hpacked _ hend hresult
    cases hresult
    rw [append_nil]
    exact ⟨hpacked, hend⟩
  | cons table tables ih =>
    intro done packing result hpacked hcount hend hresult
    simp only [length_cons] at hcount
    have hroom : packing.entries < build.maxTables := by
      rw [hpacked.entries_eq]
      omega
    simp only [packTables, hroom, if_true] at hresult
    split at hresult
    · cases hresult
    · next hfits =>
      rw [append_cons]
      refine ih (done ++ [table]) _ result (packedWith_packTable hpacked) ?_ ?_ hresult
      · simp only [length_append, length_singleton]
        omega
      · rw [slotsEnd_append_singleton, ← hpacked.offset_eq]
        omega

/-- The packing is complete when the slots of all tables fit the store. -/
theorem packTables_ok_of_fits {build : Build} {capacity : ℕ} {old : ℕ → DbDirEntry}
    {oldEntries : ℕ} (tables : List StructTables) :
    ∀ (done : List StructTables) (packing : Packing),
    PackedWith build old oldEntries done packing →
    done.length + tables.length ≤ build.maxTables →
    slotsEnd build (done ++ tables) ≤ capacity →
    ∃ result, packTables build capacity old oldEntries tables packing = (.ok, result) := by
  induction tables with
  | nil =>
    intro done packing _ _ _
    exact ⟨packing, rfl⟩
  | cons table tables ih =>
    intro done packing hpacked hcount hend
    simp only [length_cons] at hcount
    have hroom : packing.entries < build.maxTables := by
      rw [hpacked.entries_eq]
      omega
    rw [append_cons] at hend
    have hfits : ¬capacity < packing.offset + (dbSlotFor build table).toNat := by
      have hprefix := slotsEnd_append_le build (done ++ [table]) tables
      rw [slotsEnd_append_singleton, ← hpacked.offset_eq] at hprefix
      omega
    simp only [packTables, hroom, hfits]
    refine ih (done ++ [table]) _ (packedWith_packTable hpacked) ?_ hend
    simp only [length_append, length_singleton]
    omega

theorem packedWith_nil (layout : DbLayout) (oldEntries : ℕ) :
    PackedWith build layout.directory oldEntries []
      { directory := layout.directory, source := fun _ => 0, entries := 0,
        offset := dbPayloadStart build } where
  entries_eq := rfl
  offset_eq := rfl
  entry_eq index table htable := by simp at htable

section

variable {build : Build} {old : ℕ → DbDirEntry} {oldEntries : ℕ} {tables : List StructTables}
  {packing : Packing}

theorem carryRecord_placement {old : ℕ → DbDirEntry} {oldEntries : ℕ} {entry : DbDirEntry} :
    SamePlacement entry (carryRecord old oldEntries entry).1 := by
  unfold carryRecord
  split
  · exact ⟨rfl, rfl, rfl, rfl⟩
  · dsimp only
    split
    · exact ⟨rfl, rfl, rfl, rfl⟩
    · exact ⟨rfl, rfl, rfl, rfl⟩

theorem sealed_emptyEntry (build : Build) (table : StructTables) (offset : ℕ) :
    (emptyEntry build table offset).sealed = dbSeals build table := by
  cases hseals : dbSeals build table
  · simp [emptyEntry, DbDirEntry.sealed, hseals]
  · simp [emptyEntry, DbDirEntry.sealed, hseals]
    decide

variable {table : StructTables} {index : ℕ}

theorem PackedWith.placement (hpacked : PackedWith build old oldEntries tables packing)
    (htable : tables[index]? = some table) :
    SamePlacement (emptyEntry build table (slotStart build tables index))
      (packing.directory index) := by
  have hentry := congrArg Prod.fst (hpacked.entry_eq index table htable)
  simp only at hentry
  rw [hentry]
  exact carryRecord_placement

theorem PackedWith.describes (hpacked : PackedWith build old oldEntries tables packing)
    (htable : tables[index]? = some table) :
    Describes build (packing.directory index) table := by
  have hplacement := hpacked.placement htable
  exact ⟨hplacement.id_eq, hplacement.cap_eq,
    hplacement.sealed_eq.trans (sealed_emptyEntry build table _)⟩

theorem getElem?_slotSizes (build : Build) (htable : tables[index]? = some table) :
    (slotSizes build tables)[index]? = some (dbSlotFor build table).toNat := by
  simp [slotSizes, htable]

/-- In a store of at most 65535 bytes the offset of a slot fits its field. -/
theorem PackedWith.offset_toNat (hpacked : PackedWith build old oldEntries tables packing)
    (hend : slotsEnd build tables < 65536) (htable : tables[index]? = some table) :
    (packing.directory index).offset.toNat = slotStart build tables index := by
  have hslot := rangeStart_add_le (dbPayloadStart build) (getElem?_slotSizes build htable)
  rw [(hpacked.placement htable).offset_eq]
  refine Nat.mod_eq_of_lt ?_
  simp only [slotsEnd, slotStart] at hend ⊢
  omega

theorem PackedWith.exists_table (hpacked : PackedWith build old oldEntries tables packing)
    (hindex : index < packing.entries) : ∃ table, tables[index]? = some table :=
  ⟨_, getElem?_eq_getElem (hpacked.entries_eq ▸ hindex)⟩

variable {layout : DbLayout} (hpacked : PackedWith build old oldEntries tables packing)
  (hdirectory : layout.directory = packing.directory) (hentries : layout.entries = packing.entries)
  (hend : slotsEnd build tables ≤ layout.store.capacity) (hcapacity : layout.store.capacity < 65536)
  (hnodup : (tables.map StructTables.tableId).Nodup)
include hpacked hdirectory hentries hend hcapacity hnodup

/-- The directory of a complete packing is well placed. -/
theorem placed_of_packed : Placed build layout := by
  have hlt : slotsEnd build tables < 65536 := hend.trans_lt hcapacity
  -- Everything follows from where the table of an index was placed.
  have hslot : ∀ index < layout.entries, ∃ table, tables[index]? = some table ∧
      (layout.directory index).offset.toNat = slotStart build tables index ∧
      Describes build (layout.directory index) table := by
    intro index hindex
    obtain ⟨table, htable⟩ := hpacked.exists_table (hentries ▸ hindex)
    rw [hdirectory]
    exact ⟨table, htable, hpacked.offset_toNat hlt htable, hpacked.describes htable⟩
  have hbefore : ∀ first < layout.entries, ∀ second < layout.entries, first < second →
      (layout.directory first).offset.toNat + (layout.directory first).cap.toNat ≤
        (layout.directory second).offset.toNat := by
    intro first hfirst second hsecond hless
    obtain ⟨table, htable, hoffset, -, hcap, -⟩ := hslot first hfirst
    obtain ⟨_, _, hoffset', -⟩ := hslot second hsecond
    rw [hoffset, hoffset', hcap]
    exact rangeStart_disjoint _ hless (getElem?_slotSizes build htable)
  constructor
  · intro index hindex
    obtain ⟨_, _, hoffset, -⟩ := hslot index hindex
    rw [hoffset]
    exact start_le_rangeStart _ _ _
  · intro index hindex
    obtain ⟨table, htable, hoffset, -, hcap, -⟩ := hslot index hindex
    rw [hoffset, hcap]
    exact (rangeStart_add_le _ (getElem?_slotSizes build htable)).trans hend
  · intro first hfirst second hsecond hne
    rcases Nat.lt_or_gt_of_ne hne with hless | hgreater
    · exact Or.inl (hbefore first hfirst second hsecond hless)
    · exact Or.inr (hbefore second hsecond first hfirst hgreater)
  · intro first hfirst second hsecond hid
    obtain ⟨table, htable, -, hid₁, -⟩ := hslot first hfirst
    obtain ⟨table', htable', -, hid₂, -⟩ := hslot second hsecond
    have hlength : first < (tables.map StructTables.tableId).length := by
      rw [length_map, ← hpacked.entries_eq, ← hentries]
      exact hfirst
    refine (getElem?_inj hlength hnodup).mp ?_
    simp [htable, htable', ← hid₁, ← hid₂, hid]
  · intro index hindex hsealed
    obtain ⟨table, -, -, -, -, hkind⟩ := hslot index hindex
    rw [hkind, dbSeals, Bool.and_eq_true] at hsealed
    exact hsealed.1

/-- A mounted engine over a complete packing serves the packed tables. -/
theorem serves_of_packed (hmounted : layout.mounted = true) (hmirrored : Mirrored build layout) :
    Serves build tables layout where
  mounted := hmounted
  capacity_lt := hcapacity
  mirrored := hmirrored
  placed := placed_of_packed hpacked hdirectory hentries hend hcapacity hnodup
  entries_eq := hentries.trans hpacked.entries_eq
  registered table htable := by
    obtain ⟨index, hindex⟩ := mem_iff_getElem?.mp htable
    have hlt := (List.getElem?_eq_some_iff.mp hindex).1
    refine ⟨index, ?_, hdirectory ▸ hpacked.describes hindex⟩
    rw [hentries, hpacked.entries_eq]
    exact hlt
  described index hindex := by
    obtain ⟨table, htable⟩ := hpacked.exists_table (hentries ▸ hindex)
    exact ⟨table, mem_of_getElem? htable, hdirectory ▸ hpacked.describes htable⟩

end

end PdiStack.Packing
