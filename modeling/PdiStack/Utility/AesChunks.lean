import PdiStack.Utility.Aes

/-!
# Texts in chunks

The four-argument `AES_CTR_xcrypt_buffer` goes on where its last call stopped, whoever made
that call: the block and the position in it are static.  A text that is handed over in chunks
comes out as from one call of the three-argument overload exactly when the calls before it,
back to the last one that was asked to reset, took whole blocks together.
-/

namespace PdiStack.AesChunks

open Aes CounterMode List

variable (cipher : List UInt8 → List UInt8 → List UInt8)

/-- A call of the four-argument overload, whoever makes it. -/
structure ChunkCall where
  ctx : AesCtx
  buf : List UInt8
  resetCtx : Bool

def initialStatic : AesStatic := { buffer := replicate aesBlockLen 0, bi := aesBlockLen }

def keptAfter (calls : List ChunkCall) (kept : AesStatic) : AesStatic :=
  calls.foldl (fun kept call =>
    (aesCtrXcryptChunk cipher call.ctx kept call.buf call.resetCtx).2.2) kept

/-- The bytes taken since the last reset, `count` of them before the calls. -/
def openBytes (calls : List ChunkCall) (count : ℕ) : ℕ :=
  calls.foldl (fun count call => if call.resetCtx then 0 else count + call.buf.length) count

/-- The chunks of a text in order, with a reset on the last one only. -/
def xcryptChunks (ctx : AesCtx) (kept : AesStatic) : List (List UInt8) → List UInt8 × AesCtx
  | [] => ([], ctx)
  | chunk :: chunks =>
    let (output, ctx, kept) := aesCtrXcryptChunk cipher ctx kept chunk chunks.isEmpty
    let (rest, ctx) := xcryptChunks ctx kept chunks
    (output ++ rest, ctx)

/-- The chunks are one run of the byte loop, from where the static variables are. -/
theorem xcryptChunks_eq (ctx : AesCtx) (kept : AesStatic) (chunks : List (List UInt8)) :
    xcryptChunks cipher ctx kept chunks =
      (((aesCtr cipher ctx.key).apply chunks.flatten ⟨ctx.iv, kept.buffer, kept.bi⟩).1,
        { ctx with iv := ((aesCtr cipher ctx.key).apply chunks.flatten
          ⟨ctx.iv, kept.buffer, kept.bi⟩).2.counter }) := by
  induction chunks generalizing ctx kept with
  | nil => rfl
  | cons chunk chunks ih =>
    rw [flatten_cons, Generator.apply_append]
    simp only [xcryptChunks, ih]
    cases chunks with
    | nil => rfl
    | cons next chunks => rfl

/-- The position in the block is that of the bytes since the last reset. -/
theorem bi_keptAfter (calls : List ChunkCall) {kept : AesStatic} {count : ℕ}
    (hlower : 1 ≤ kept.bi) (hupper : kept.bi ≤ aesBlockLen)
    (hcount : kept.bi % aesBlockLen = count % aesBlockLen) :
    1 ≤ (keptAfter cipher calls kept).bi ∧ (keptAfter cipher calls kept).bi ≤ aesBlockLen ∧
      (keptAfter cipher calls kept).bi % aesBlockLen = openBytes calls count % aesBlockLen := by
  induction calls generalizing kept count with
  | nil => exact ⟨hlower, hupper, hcount⟩
  | cons call calls ih =>
    have hsize : 0 < aesBlockLen := by decide
    obtain ⟨hone, hle, hmod⟩ := (aesCtr cipher call.ctx.key).position_apply hsize call.buf
      (show 1 ≤ Cursor.position ⟨call.ctx.iv, kept.buffer, kept.bi⟩ from hlower) hupper
    rw [keptAfter, openBytes, foldl_cons, foldl_cons]
    cases hreset : call.resetCtx with
    | true => exact ih hsize le_rfl (Nat.mod_self _)
    | false =>
      refine ih hone hle (hmod.trans ?_)
      exact Nat.ModEq.add_right call.buf.length hcount

/-- Every text comes out of its chunks as from one call exactly when the bytes taken since the
last reset are whole blocks. -/
theorem chunks_at_once_iff (earlier : List ChunkCall) :
    (∀ ctx chunks, xcryptChunks cipher ctx (keptAfter cipher earlier initialStatic) chunks =
      aesCtrXcryptBuffer cipher ctx chunks.flatten) ↔ aesBlockLen ∣ openBytes earlier 0 := by
  have hsize : 0 < aesBlockLen := by decide
  obtain ⟨hlower, hupper, hmod⟩ := @bi_keptAfter cipher earlier initialStatic 0 hsize le_rfl rfl
  generalize keptAfter cipher earlier initialStatic = kept at hlower hupper hmod ⊢
  constructor
  · intro hsame
    by_contra hopen
    have hwithin : kept.bi ≠ aesBlockLen := fun hused => hopen <| by
      rw [hused] at hmod
      exact Nat.dvd_of_mod_eq_zero hmod.symm
    -- the one byte is mixed with what is left of the block, and no counter is used up
    have hbyte := congrArg (fun result => result.2.iv)
      (hsame ⟨[], replicate aesBlockLen 0⟩ [[0]])
    rw [xcryptChunks_eq] at hbyte
    simp [aesCtrXcryptBuffer, Generator.apply, Generator.draw, Generator.restart, aesCtr,
      hwithin] at hbyte
    exact absurd hbyte (by decide)
  · rintro hopen ctx chunks
    have hused : kept.bi = aesBlockLen := by
      rw [Nat.mod_eq_zero_of_dvd hopen] at hmod
      exact le_antisymm hupper (Nat.le_of_dvd hlower (Nat.dvd_of_mod_eq_zero hmod))
    obtain ⟨houtput, hcounter⟩ := (aesCtr cipher ctx.key).apply_eq_restart
      (show Cursor.position ⟨ctx.iv, kept.buffer, kept.bi⟩ = aesBlockLen from hused) chunks.flatten
    rw [xcryptChunks_eq, houtput, hcounter]
    rfl

/-- A call that another session has broken off after one byte: the next text is mixed with the
rest of that session's block. -/
theorem chunks_after_stall :
    xcryptChunks (fun key _ => key) ⟨replicate 16 2, replicate 16 0⟩
        (keptAfter (fun key _ => key)
          [⟨⟨replicate 16 1, replicate 16 0⟩, [0], false⟩] initialStatic) [[0]] =
      ([1], ⟨replicate 16 2, replicate 16 0⟩) ∧
    aesCtrXcryptBuffer (fun key _ => key) ⟨replicate 16 2, replicate 16 0⟩ [0] =
      ([2], ⟨replicate 16 2, replicate 15 0 ++ [1]⟩) := by
  decide

end PdiStack.AesChunks
