import PdiStack.Database.Framing

/-!
# Records in their slots

A record is stored in the slot of its directory entry, either as the bytes themselves
with a checksum in the entry, or sealed as nonce, ciphertext and tag.  `Stores` says that
a slot holds a payload in the way its entry says, and only looks at the bytes of the slot.

Reading such a slot gives the beginning of the payload (`readEntryRecord_of_stores`), and
a write that succeeds leaves one (`storePayload_spec`).
-/

namespace PdiStack.Records

open FlatStore PdiTypes Checksum Aes LayoutEngine Framing List

variable (build : Build) (key : List UInt8)

def ciphertext (iv payload : List UInt8) : List UInt8 :=
  (aesCtrXcryptBuffer build.cipher { key := key, iv := iv } payload).1

/-- The tag of a sealed record: the beginning of the mac over nonce and
ciphertext. -/
def sealTag (message : List UInt8) : List UInt8 :=
  (build.hmacSha256 key message).take dbSealTagBytes

@[simp]
theorem length_ciphertext (iv payload : List UInt8) :
    (ciphertext build key iv payload).length = payload.length := by
  simp [ciphertext]

@[simp]
theorem length_sealTag (message : List UInt8) :
    (sealTag build key message).length = dbSealTagBytes := by
  simp [sealTag, build.length_hmacSha256, dbSealTagBytes]

def sealedImage (iv payload : List UInt8) : List UInt8 :=
  iv ++ ciphertext build key iv payload ++ sealTag build key (iv ++ ciphertext build key iv payload)

/-- How the bytes of a record encode its payload, for the kind of record its entry
says it is. -/
inductive Encodes (build : Build) (entry : DbDirEntry) (payload : List UInt8) :
    List UInt8 → Prop where
  | plain (hplain : entry.sealed = false) (hcrc : entry.crc = crc16Ccitt payload) :
      Encodes build entry payload payload
  | sealed (key iv : List UInt8) (hsealed : entry.sealed = true) (hbuild : build.sealing = true)
      (hkey : build.dbKey = some key) (hiv : iv.length = dbSealIvBytes) :
      Encodes build entry payload (sealedImage build key iv payload)

structure Stores (build : Build) (cell : ℕ → UInt8) (entry : DbDirEntry)
    (payload : List UInt8) : Prop where
  len_eq : entry.len.toNat = payload.length
  image : payload ≠ [] → ∃ image : List UInt8, Encodes build entry payload image ∧
    image.length ≤ entry.cap.toNat ∧ slice cell entry.offset.toNat image.length = image

def storedLength (entry : DbDirEntry) (payload : List UInt8) : ℕ :=
  payload.length + if entry.sealed then dbSealOverhead else 0

variable {build : Build} {entry : DbDirEntry} {layout : DbLayout} {iv key payload : List UInt8}
  {offset : ℕ} {cell : ℕ → UInt8}

theorem Encodes.length_eq {image : List UInt8} (hencodes : Encodes build entry payload image) :
    image.length = storedLength entry payload := by
  cases hencodes with
  | plain hplain hcrc => simp [storedLength, hplain]
  | sealed key iv hsealed hbuild hkey hiv =>
    simp only [sealedImage, length_append, length_ciphertext, length_sealTag,
      storedLength, hsealed, if_true, dbSealOverhead]
    omega

/-- An encoding does not depend on where the record lies. -/
theorem Encodes.of_entry {other : DbDirEntry} {image : List UInt8}
    (hencodes : Encodes build entry payload image) (hkind : other.sealed = entry.sealed)
    (hcrc : other.crc = entry.crc) : Encodes build other payload image := by
  cases hencodes with
  | plain hplain hsum => exact .plain (hkind.trans hplain) (hcrc.trans hsum)
  | sealed key iv hsealed hbuild hkey hiv =>
    exact .sealed key iv (hkind.trans hsealed) hbuild hkey hiv

/-- A slot that was never written, or was cleared, stores the empty payload. -/
theorem Stores.empty (hlen : entry.len = 0) : Stores build cell entry [] where
  len_eq := by simp [hlen]
  image hpayload := absurd rfl hpayload

section

variable (hstores : Stores build cell entry payload)
include hstores

theorem Stores.stored_le (hpayload : payload ≠ []) :
    storedLength entry payload ≤ entry.cap.toNat := by
  obtain ⟨image, hencodes, hfits, -⟩ := hstores.image hpayload
  exact hencodes.length_eq ▸ hfits

theorem Stores.len_le_cap : entry.len ≤ entry.cap := by
  rw [UInt16.le_iff_toNat_le, hstores.len_eq]
  by_cases hpayload : payload = []
  · simp [hpayload]
  · have hstored := hstores.stored_le hpayload
    simp only [storedLength] at hstored
    omega

/-- Frame rule: only the bytes of the slot matter. -/
theorem Stores.of_cells {other : ℕ → UInt8} (hcells : ∀ address, entry.offset.toNat ≤ address →
      address < entry.offset.toNat + entry.cap.toNat → other address = cell address) :
    Stores build other entry payload where
  len_eq := hstores.len_eq
  image hpayload := by
    obtain ⟨image, hencodes, hfits, hslice⟩ := hstores.image hpayload
    refine ⟨image, hencodes, hfits, ?_⟩
    rw [← hslice, length_slice]
    exact slice_congr fun address hlower hupper => hcells address hlower (by omega)

/-- The version plays no part in how a payload is stored. -/
theorem Stores.of_version (version : UInt16) :
    Stores build cell { entry with version := version } payload where
  len_eq := hstores.len_eq
  image hpayload := by
    obtain ⟨image, hencodes, hfits, hslice⟩ := hstores.image hpayload
    exact ⟨image, hencodes.of_entry rfl rfl, hfits, hslice⟩

/-- A record may be moved: copying its bytes to another slot of the same kind that
has room for them stores the same payload there. -/
theorem Stores.of_move {other : ℕ → UInt8} {moved : DbDirEntry} (hlen : moved.len = entry.len)
    (hcrc : moved.crc = entry.crc) (hkind : moved.sealed = entry.sealed)
    (hfits : storedLength entry payload ≤ moved.cap.toNat)
    (hcopy : slice other moved.offset.toNat (storedLength entry payload) =
      slice cell entry.offset.toNat (storedLength entry payload)) :
    Stores build other moved payload where
  len_eq := by rw [hlen, hstores.len_eq]
  image hpayload := by
    obtain ⟨image, hencodes, -, hslice⟩ := hstores.image hpayload
    have hlength := hencodes.length_eq
    refine ⟨image, hencodes.of_entry hkind hcrc, by omega, ?_⟩
    rw [hlength, hcopy, ← hlength, hslice]

end

theorem crcWindows_eq {store : Store UInt8} {len : ℕ} (hbound : offset + len ≤ store.capacity) :
    crcWindows store offset len = some (crc16Ccitt (slice store.cell offset len)) :=
  Store.foldWindows_eq (by decide) crc16CcittUpdate_nil crc16CcittUpdate_append hbound len 0 _
    (Nat.zero_le _) (by omega)

theorem verifyPlain_eq (hbound : entry.offset.toNat + entry.len.toNat ≤ layout.store.capacity) :
    verifyPlain layout entry =
      if crc16Ccitt (slice layout.store.cell entry.offset.toNat entry.len.toNat) = entry.crc
        then .ok else .crc := by
  rw [verifyPlain, crcWindows_eq hbound]

/-- A burst of at most sixteen bits changes the checksum of any byte range, and
`verify_plain` refuses the record whose bytes it changed. -/
theorem burst_detected :
    (∀ bytes changed, Burst bytes changed → crc16Ccitt changed ≠ crc16Ccitt bytes) ∧
      ∀ (layout other : DbLayout) (entry : DbDirEntry),
        entry.offset.toNat + entry.len.toNat ≤ layout.store.capacity →
          other.store.capacity = layout.store.capacity → verifyPlain layout entry = .ok →
          Burst (slice layout.store.cell entry.offset.toNat entry.len.toNat)
            (slice other.store.cell entry.offset.toNat entry.len.toNat) →
          verifyPlain other entry = .crc := by
  refine ⟨fun _ _ => crc16Ccitt_ne_of_burst, fun layout other entry hbound hcap hok hburst => ?_⟩
  rw [verifyPlain_eq hbound] at hok
  have hcrc := ite_eq_left_iff.mp hok
  rw [verifyPlain_eq (hcap ▸ hbound), if_neg]
  rw [← not_imp_comm.mp hcrc nofun]
  exact crc16Ccitt_ne_of_burst hburst

/-- Three zeros, the second of which has changed. -/
theorem changed_byte_refused :
    verifyPlain { store := { capacity := 3, cell := fun place => if place = 1 then 7 else 0 } }
      { len := 3, crc := crc16Ccitt [0, 0, 0] } = .crc :=
  burst_detected.2 { store := { capacity := 3, cell := fun _ => 0 } } _ _ (by decide) rfl
    (by decide +kernel)
    ⟨by decide, bits [0], bits [0], bits [7], bits [0], by decide, rfl, rfl, rfl⟩

theorem macChunks_eq {store : Store UInt8} {len : ℕ}
    (hbound : offset + dbSealIvBytes + len ≤ store.capacity) (iv : List UInt8) :
    macChunks store offset len iv = some (iv ++ slice store.cell (offset + dbSealIvBytes) len) :=
  Store.foldWindows_eq (by decide) append_nil
    (fun state first second => (append_assoc state first second).symm) hbound len 0 _
    (Nat.zero_le _) (by omega)

/-- What `read_record` returns for a record with the given entry and payload. -/
def expectedRead (entry : DbDirEntry) (payload : List UInt8) (cap : UInt16) (alloc : Bool) :
    RecordRead :=
  if payload ≠ [] ∧ entry.sealed = true ∧ alloc = false then { status := .noMem }
  else
    { status := .ok
      bytes := payload.take cap.toNat
      len := UInt16.ofNat (min payload.length cap.toNat)
      version := entry.version }

/-- The three parts of a sealed record, read back from its slot. -/
theorem slice_sealedImage (hiv : iv.length = dbSealIvBytes)
    (hslice : slice cell offset (sealedImage build key iv payload).length =
      sealedImage build key iv payload) :
    slice cell offset dbSealIvBytes = iv ∧
      slice cell (offset + dbSealIvBytes) payload.length = ciphertext build key iv payload ∧
      slice cell (offset + dbSealIvBytes + payload.length) dbSealTagBytes =
        sealTag build key (iv ++ ciphertext build key iv payload) := by
  simp only [sealedImage] at hslice
  rw [length_append, slice_eq_append_iff, length_append, slice_eq_append_iff] at hslice
  obtain ⟨⟨hnonce, hcipher⟩, htag⟩ := hslice
  simp only [length_ciphertext, length_sealTag, hiv] at hnonce hcipher htag
  exact ⟨hnonce, hcipher, by rw [add_assoc]; exact htag⟩

theorem verifySealed_of_slices (hkey : build.dbKey = some key)
    (hlen : entry.len.toNat = payload.length)
    (hbound : entry.offset.toNat + dbSealIvBytes + payload.length ≤ layout.store.capacity)
    (hnonce : slice layout.store.cell entry.offset.toNat dbSealIvBytes = iv)
    (hcipher : slice layout.store.cell (entry.offset.toNat + dbSealIvBytes) payload.length =
      ciphertext build key iv payload) :
    verifySealed build layout entry
      (sealTag build key (iv ++ ciphertext build key iv payload)) = .ok := by
  have hhead : entry.offset.toNat + dbSealIvBytes ≤ layout.store.capacity := by omega
  simp only [verifySealed, hkey, Store.read_of_le hhead, hnonce, hlen, macChunks_eq hbound, hcipher]
  exact if_pos rfl

/-- A sealed record is decrypted to the beginning of its payload. -/
theorem unsealRecord_of_image (hkey : build.dbKey = some key) (hiv : iv.length = dbSealIvBytes)
    (hlen : entry.len.toNat = payload.length)
    (hbound : entry.offset.toNat + (sealedImage build key iv payload).length ≤
      layout.store.capacity)
    (hslice : slice layout.store.cell entry.offset.toNat
      (sealedImage build key iv payload).length = sealedImage build key iv payload) {count : ℕ}
    (hcount : count ≤ payload.length) :
    unsealRecord build layout entry count true = (.ok, payload.take count) := by
  obtain ⟨hnonce, hcipher, htag⟩ := slice_sealedImage hiv hslice
  simp only [sealedImage, length_append, length_ciphertext, length_sealTag] at hbound
  have hread : entry.offset.toNat + dbSealIvBytes + count ≤ layout.store.capacity := by omega
  have hverify := verifySealed_of_slices hkey hlen (by omega) hnonce hcipher
  simp only [unsealRecord, hlen, hkey, if_true]
  rw [Store.read_of_le (by omega), htag]
  simp only [hverify]
  rw [Store.read_of_le (by omega), Store.read_of_le hread, hnonce]
  simp only
  rw [← take_slice _ _ hcount, hcipher]
  congr 1
  exact aesCtrXcryptBuffer_take build.cipher _ payload count

private theorem readCount_eq (len cap : UInt16) :
    (if len > cap then cap else len) = UInt16.ofNat (min len.toNat cap.toNat) := by
  split
  · next hlt =>
    rw [min_eq_right (le_of_lt (UInt16.lt_iff_toNat_lt.mp hlt)), UInt16.ofNat_toNat]
  · next hge =>
    rw [min_eq_left (by simpa [UInt16.lt_iff_toNat_lt] using hge), UInt16.ofNat_toNat]

/-- Reading a slot that stores a payload gives the beginning of that payload. -/
theorem readEntryRecord_of_stores (hstores : Stores build layout.store.cell entry payload)
    (hbound : entry.offset.toNat + entry.cap.toNat ≤ layout.store.capacity) (cap : UInt16)
    (alloc : Bool) :
    readEntryRecord build layout entry cap alloc = expectedRead entry payload cap alloc := by
  have hlen := hstores.len_eq
  by_cases hpayload : payload = []
  · subst hpayload
    have hzero : entry.len = 0 := UInt16.toNat.inj (by simpa using hlen)
    simp [readEntryRecord, expectedRead, hzero]
  · have hpositive : entry.len ≠ 0 := by
      intro hzero
      apply hpayload
      simpa [hzero] using hlen.symm
    obtain ⟨image, hencodes, hfits, hslice⟩ := hstores.image hpayload
    have hlt := entry.len.toNat_lt
    have hcount : (UInt16.ofNat (min payload.length cap.toNat)).toNat =
        min payload.length cap.toNat := by
      exact Nat.mod_eq_of_lt (by omega)
    have htake : payload.take (min payload.length cap.toNat) = payload.take cap.toNat := by
      rw [Nat.min_comm, ← take_take, take_length]
    simp only [readEntryRecord, readCount_eq, hlen, hcount]
    rw [if_neg hpositive]
    cases hencodes with
    | plain hplain hcrc =>
      have hwhole : entry.offset.toNat + payload.length ≤ layout.store.capacity := by omega
      have hverify : verifyPlain layout entry = .ok := by
        simp [verifyPlain, hlen, crcWindows_eq hwhole, hslice, hcrc]
      simp only [hplain, hverify, expectedRead]
      rw [Store.read_of_le (by omega), ← take_slice _ _ (min_le_left _ _), hslice, htake]
      simp
    | sealed key iv hsealed hbuild hkey hiv =>
      have hwhole : entry.offset.toNat + (sealedImage build key iv payload).length ≤
          layout.store.capacity := by omega
      cases alloc with
      | true =>
        simp only [hsealed, hbuild,
          unsealRecord_of_image hkey hiv hlen hwhole hslice (min_le_left _ _), expectedRead]
        simp [htake]
      | false =>
        have htag : entry.offset.toNat + dbSealIvBytes + payload.length + dbSealTagBytes ≤
            layout.store.capacity := by
          simp only [sealedImage, length_append, length_ciphertext, length_sealTag] at hwhole
          omega
        simp [hsealed, hbuild, unsealRecord, hlen, Store.read_of_le htag, expectedRead, hpayload]

/-- The chunk loop of `seal_record` writes the ciphertext of the whole payload.
The chunks are whole cipher blocks, so the counter carries from one to the next. -/
theorem sealChunks_spec {build : Build} {fuel : ℕ} :
    ∀ (payload : List UInt8) (target : ℕ) (ctx : AesCtx) (message : List UInt8)
      (store : Store UInt8),
    payload.length ≤ fuel → target + payload.length ≤ store.capacity →
    sealChunks build fuel payload target ctx message store =
      (.ok, message ++ (aesCtrXcryptBuffer build.cipher ctx payload).1,
        { store with
          cell := splice store.cell target (aesCtrXcryptBuffer build.cipher ctx payload).1 }) := by
  induction fuel with
  | zero =>
    intro payload target ctx message store hfuel _
    have hnil : payload = [] := length_eq_zero_iff.mp (by omega)
    simp [sealChunks, hnil]
  | succ fuel ih =>
    intro payload target ctx message store hfuel hbound
    by_cases hnil : payload = []
    · simp [sealChunks, hnil]
    have hchunk : 0 < dbSealChunkBytes := by decide
    generalize hfirst : aesCtrXcryptBuffer build.cipher ctx (payload.take dbSealChunkBytes) = first
    have hlength : first.1.length = min dbSealChunkBytes payload.length := by
      rw [← hfirst, length_aesCtrXcryptBuffer, length_take]
    have hsplit : aesCtrXcryptBuffer build.cipher ctx payload =
        (first.1 ++ (aesCtrXcryptBuffer build.cipher first.2 (payload.drop dbSealChunkBytes)).1,
          (aesCtrXcryptBuffer build.cipher first.2 (payload.drop dbSealChunkBytes)).2) := by
      by_cases hlast : payload.length ≤ dbSealChunkBytes
      · rw [drop_of_length_le hlast, aesCtrXcryptBuffer_nil, append_nil, ← hfirst,
          take_of_length_le hlast]
      · have hblocks : aesBlockLen ∣ (payload.take dbSealChunkBytes).length := by
          rw [length_take, min_eq_left (by omega)]
          decide
        rw [← hfirst, ← aesCtrXcryptBuffer_append build.cipher ctx hblocks, take_append_drop]
    have hwrite : target + first.1.length ≤ store.capacity := by omega
    simp only [sealChunks, hnil, if_false, hfirst, Store.write_of_le hwrite]
    rw [ih _ _ _ _ _ (by rw [length_drop]; omega) (by
      rw [length_drop]
      simp only
      omega), hsplit, append_assoc, splice_append]

def withEntry (layout : DbLayout) (index : ℕ) (entry : DbDirEntry) : DbLayout :=
  { layout with directory := Function.update layout.directory index entry }

/-- A seal writes nonce, ciphertext and tag one behind the other. -/
theorem splice_sealedImage {build : Build} {cell : ℕ → UInt8} {offset : ℕ}
    (hiv : iv.length = dbSealIvBytes) :
    splice cell offset (sealedImage build key iv payload) =
      splice
        (splice (splice cell offset iv) (offset + dbSealIvBytes)
          (ciphertext build key iv payload))
        (offset + dbSealIvBytes + payload.length)
        (sealTag build key (iv ++ ciphertext build key iv payload)) := by
  rw [sealedImage, splice_append, splice_append, length_append, length_ciphertext, hiv, add_assoc]

/-- `seal_record` with a key and a scratch lays the sealed image into the slot. -/
theorem sealRecord_of_key {index : ℕ} (hkey : build.dbKey = some key)
    (hbound : (layout.directory index).offset.toNat + (payload.length + dbSealOverhead) ≤
      layout.store.capacity) {draws : Fin 4 → UInt32} :
    sealRecord build layout index payload true draws =
      (.ok, withEntry
        (withCells layout (splice layout.store.cell (layout.directory index).offset.toNat
          (sealedImage build key (sealIv draws) payload)))
        index { layout.directory index with len := UInt16.ofNat payload.length, crc := 0 }) := by
  have hoverhead : dbSealOverhead = dbSealIvBytes + dbSealTagBytes := rfl
  have hnonce : (layout.directory index).offset.toNat + (sealIv draws).length ≤
      layout.store.capacity := by
    rw [length_sealIv]
    omega
  simp only [sealRecord, hkey, Store.write_of_le hnonce]
  rw [sealChunks_spec _ _ _ _ _ (le_refl _) (by simp only; omega)]
  simp only
  rw [Store.write_of_le (by
    rw [← sealTag, length_sealTag]
    simp only
    omega), splice_sealedImage (length_sealIv draws)]
  rfl

/-- A write either fails and changes nothing, or leaves a slot that stores what was
written and touches nothing outside the slot. -/
theorem storePayload_spec {index : ℕ}
    (hflag : (layout.directory index).sealed = true → build.sealing = true)
    (hlength : payload.length < 65536)
    (hfits : storedLength (layout.directory index) payload ≤ (layout.directory index).cap.toNat)
    (hbound : (layout.directory index).offset.toNat + (layout.directory index).cap.toNat ≤
      layout.store.capacity) (alloc : Bool) (draws : Fin 4 → UInt32) :
    (∃ err, err ≠ PdiErr.ok ∧ storePayload build layout index payload alloc draws = (err, layout)) ∨
    ∃ (cell : ℕ → UInt8) (crc : UInt16),
      storePayload build layout index payload alloc draws =
        (.ok, withEntry (withCells layout cell) index
          { layout.directory index with len := UInt16.ofNat payload.length, crc := crc }) ∧
      Stores build cell
        { layout.directory index with len := UInt16.ofNat payload.length, crc := crc } payload ∧
      ∀ address, address < (layout.directory index).offset.toNat ∨
        (layout.directory index).offset.toNat + (layout.directory index).cap.toNat ≤ address →
        cell address = layout.store.cell address := by
  have hlen : (UInt16.ofNat payload.length).toNat = payload.length := by
    exact Nat.mod_eq_of_lt hlength
  by_cases hsealed : (layout.directory index).sealed = true
  · -- A sealed slot: without a key or a scratch nothing has been written yet.
    have hpath : storePayload build layout index payload alloc draws =
        sealRecord build layout index payload alloc draws := by
      simp [storePayload, hsealed, hflag hsealed]
    rw [hpath]
    cases hkey : build.dbKey with
    | none => exact Or.inl ⟨.notInitialized, by decide, by simp [sealRecord, hkey]⟩
    | some key =>
      cases alloc with
      | false => exact Or.inl ⟨.noMem, by decide, by simp [sealRecord, hkey]⟩
      | true =>
        have himage : (sealedImage build key (sealIv draws) payload).length =
            storedLength (layout.directory index) payload :=
          (Encodes.sealed key _ hsealed (hflag hsealed) hkey (length_sealIv draws)).length_eq
        have hstored : storedLength (layout.directory index) payload =
            payload.length + dbSealOverhead := by simp [storedLength, hsealed]
        refine Or.inr ⟨_, 0, sealRecord_of_key hkey (by omega), ⟨hlen, fun _ => ?_⟩, ?_⟩
        · exact ⟨_, .sealed key (sealIv draws) hsealed (hflag hsealed) hkey (length_sealIv draws),
            by simp only; omega, slice_splice_self _ _ _⟩
        · rintro address (hbefore | hafter)
          · exact splice_of_lt _ _ hbefore
          · exact splice_of_ge _ _ (by omega)
  · have hplain : (layout.directory index).sealed = false := by simpa using hsealed
    have hstored : storedLength (layout.directory index) payload = payload.length := by
      simp [storedLength, hplain]
    refine Or.inr ⟨splice layout.store.cell (layout.directory index).offset.toNat payload,
      crc16Ccitt payload, ?_, ⟨hlen, fun _ => ?_⟩, ?_⟩
    · have hwrite : (layout.directory index).offset.toNat + payload.length ≤
          layout.store.capacity := by omega
      simp [storePayload, hplain, Store.write_of_le hwrite, withEntry, withCells]
    · exact ⟨payload, .plain hplain rfl, by simp only; omega, slice_splice_self _ _ _⟩
    · rintro address (hbefore | hafter)
      · exact splice_of_lt _ _ hbefore
      · exact splice_of_ge _ _ (by omega)

end PdiStack.Records
