import PdiStack.Storage.TmpLimits

/-!
# Edits of the memory file system

`editFile` computes the end of the edited range in 32 bits.  It should store the content
from the offset on, with zeros up to it, or fail and change nothing.  It does so for the
ranges that end below `2 ^ 32`.  Past that the file is not extended to the range, and the
bytes are stored at other places or outside of the string.
-/

namespace PdiStack.TmpEdit

open StringOperations TmpFs TmpRequests TmpLimits List

/-- An edit fails and changes nothing, or stores exactly the requested range, with every
index inside of the new content. -/
def EditsExactly (now : UInt32) (path : Text) (offset : UInt64) (content : Content)
    (nodes : TmpfsNodes) : Prop :=
  match editFile now path offset content nodes with
  | (.error _, after) => after = nodes
  | (.ok count, after) => count = content.1.length ∧
      (after = updateNode nodes (normalize path) fun node =>
        { node with data := storeAt offset.toNat content node.data, mtime := now }) ∧
      ∀ node, findNode nodes (normalize path) = some node → ∀ index < content.1.length,
        (offset.toUInt32 + index.toUInt32).toNat < (storeAt offset.toNat content node.data).length

/-- The check for space, as `editFile` makes it. -/
def EditRefused (nodes : TmpfsNodes) (node : TmpfsNode) (offset : UInt64) (size : UInt32) : Prop :=
  let oldlen := node.data.length.toUInt32
  oldlen < offset.toUInt32 + size ∧
    tmpfsMaxBytes < usedBytes nodes - oldlen + (offset.toUInt32 + size)

/-- The loop replaces a range of the string that is as long as the content. -/
theorem overwrite_append {content : Text} {before middle after : Text}
    (hmiddle : middle.length = content.length) (hend : before.length + content.length < 2 ^ 32) :
    overwrite before.length.toUInt32 content (before ++ (middle ++ after)) =
      before ++ content ++ after := by
  induction content generalizing before middle with
  | nil => rw [length_eq_zero_iff.mp hmiddle, append_nil, nil_append, overwrite]
  | cons byte content ih =>
    obtain ⟨old, middle, rfl⟩ := exists_cons_of_length_eq_add_one hmiddle
    rw [length_cons] at hend
    have hplace : before.length.toUInt32.toNat = before.length := Nat.mod_eq_of_lt (by omega)
    have hnext : before.length.toUInt32 + 1 = (before ++ [byte]).length.toUInt32 := by
      rw [← UInt32.toNat_inj, UInt32.toNat_add, hplace, length_append]
      rfl
    have hrest := @ih (before ++ [byte]) middle (Nat.succ.inj hmiddle)
      (by rw [length_append, length_singleton]; omega)
    rw [overwrite, hplace, hnext, cons_append, set_append_right _ _ (le_refl _),
      Nat.sub_self, set_cons_zero, append_cons before byte (middle ++ after), hrest,
      append_cons before byte content]

/-- An edit that ends below the range of the index is exact. -/
theorem overwrite_eq_storeAt {offset : UInt64} {content data : Text}
    (hend : offset.toNat + content.length < 2 ^ 32) :
    overwrite offset.toUInt32 content (data ++ replicate
        ((offset.toUInt32 + content.length.toUInt32).toNat - data.length) 0) =
      storeAt offset.toNat content data := by
  rw [toNat_ending, Nat.mod_eq_of_lt hend, storeAt]
  generalize hpadded : data ++ replicate (offset.toNat + content.length - data.length) 0 = padded
  have hlength : offset.toNat + content.length ≤ padded.length := by
    rw [← hpadded, length_append, length_replicate]
    omega
  have hbefore : (padded.take offset.toNat).length = offset.toNat := by
    rw [length_take]
    omega
  have hoffset : offset.toUInt32 = (padded.take offset.toNat).length.toUInt32 := by
    rw [hbefore]
    rfl
  have hsplit : padded = padded.take offset.toNat ++ ((padded.drop offset.toNat).take
      content.length ++ padded.drop (offset.toNat + content.length)) := by
    rw [← drop_drop, take_append_drop, take_append_drop]
  rw [hoffset]
  nth_rewrite 2 [hsplit]
  refine overwrite_append ?_ (by omega)
  rw [length_take, length_drop]
  omega

/-- An edit of a file is exact if and only if its range ends below `2 ^ 32` or the check
for space refuses it. -/
theorem editsExactly_iff {nodes : TmpfsNodes} {path : Text} {node : TmpfsNode}
    (hfind : findNode nodes (normalize path) = some node) (hreg : node.type = .reg)
    (hdata : node.data.length < 2 ^ 32) (now : UInt32) (offset : UInt64) (content : Content) :
    EditsExactly now path offset content nodes ↔
      offset.toNat + content.1.length < 2 ^ 32 ∨
        EditRefused nodes node offset content.1.length.toUInt32 := by
  unfold EditsExactly editFile
  simp only [hfind, ne_eq]
  split_ifs with hrefused
  · exact iff_of_true rfl (.inr hrefused)
  rw [or_iff_left (b := EditRefused nodes node offset content.1.length.toUInt32) hrefused]
  have hsize : content.1.length.toUInt32.toNat = content.1.length := Nat.mod_eq_of_lt content.2
  constructor
  · rintro ⟨-, hafter, -⟩
    have hcode := totalBytes_updateNode hfind fun node => { node with
      data := overwrite offset.toUInt32 content (node.data ++ replicate
        ((offset.toUInt32 + content.1.length.toUInt32).toNat - node.data.length) 0)
      mtime := now }
    have hexact := totalBytes_updateNode hfind fun node =>
      { node with data := storeAt offset.toNat content node.data, mtime := now }
    rw [hafter, length_overwrite, length_append, length_replicate, toNat_ending] at hcode
    rw [length_storeAt] at hexact
    omega
  · intro hend
    refine ⟨hsize, ?_, ?_⟩
    · simp only [overwrite_eq_storeAt hend]
    · intro other hother index hindex
      rw [length_storeAt, toNat_ending]
      omega

def smallFile : TmpfsNodes :=
  [newNode { uid := 0, gid := 0, umask := 0 } 0 (text "a") (text "x") .reg 0]

/-- An edit that makes it longer. -/
theorem edit_inside_exact :
    EditsExactly 0 (text "a") 1 ⟨text "yz", by decide⟩
      smallFile :=
  (editsExactly_iff rfl rfl (by decide) _ _ _).mpr (.inl (by decide))

/-- An offset of `2 ^ 32` stores its byte at the start of the file. -/
theorem edit_far_wraps :
    ¬ EditsExactly 0 (text "a") 0x100000000 ⟨text "y", by decide⟩
      smallFile := by
  rw [editsExactly_iff rfl rfl (by decide)]
  unfold EditRefused
  decide

end PdiStack.TmpEdit
