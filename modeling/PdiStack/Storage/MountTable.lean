import Mathlib
import PdiStack.Storage.Dispatcher

/-!
# The mount table

The dispatcher finds the mount of a path twice by the same loop, in `resolve` and in
`findMountForPath`.  After any calls of `mount` the loop names the mount with the longest
prefix that is the path or ends at a separator of it.  The root mount serves what is
left, and its backend is given the whole path.

A handle of `openFile` leads back to the backend that opened the file.
-/

namespace PdiStack.MountTable

open StringOperations FileSystemInterface Dispatcher List

variable {σ : Type}

/-- Calls of `mount`, one after the other.  A refused call changes nothing. -/
def mountAll (dispatcher : VfsDispatcher σ) (calls : List (Text × ℕ)) : VfsDispatcher σ :=
  calls.foldl (fun dispatcher call =>
    match dispatcher.mount call.1 call.2 with
    | .ok mounted => mounted
    | .error _ => dispatcher) dispatcher

/-- What holds of a mount table. -/
structure WellMounted (mounts : List VfsMount) : Prop where
  few : mounts.length ≤ vfsMaxMounts
  distinct : (mounts.map VfsMount.prefixPath).Nodup
  nonempty : ∀ mounted ∈ mounts, mounted.prefixPath ≠ []

def Serves (mounted : VfsMount) (path : Text) : Prop :=
  mounted.isRoot ∨ mounted.prefixPath = path ∨ mounted.prefixPath ++ [pathSeparator] <+: path

instance (mounted : VfsMount) (path : Text) : Decidable (Serves mounted path) :=
  inferInstanceAs (Decidable (_ ∨ _))

structure Longest (mounts : List VfsMount) (path : Text) (mounted : VfsMount) : Prop where
  mem : mounted ∈ mounts
  serves : Serves mounted path
  longest : ∀ other ∈ mounts, Serves other path →
    other.prefixPath.length ≤ mounted.prefixPath.length

/-- The path a backend is given: the whole path below the root, the separator for a
mount point, and otherwise what the prefix leaves. -/
structure RelativeTo (mounted : VfsMount) (path rel : Text) : Prop where
  root : mounted.isRoot → rel = path
  point : ¬ mounted.isRoot → mounted.prefixPath = path → rel = [pathSeparator]
  below : ¬ mounted.isRoot → mounted.prefixPath ≠ path → mounted.prefixPath ++ rel = path

/-- What a mount table does with a path. -/
structure ResolvesLongest (dispatcher : VfsDispatcher σ) (path : Text) : Prop where
  named : ∀ mounted, dispatcher.findMountForPath path = some mounted ↔
    Longest dispatcher.mounts path mounted
  resolved : ∀ mounted, Longest dispatcher.mounts path mounted →
    ∃ rel, dispatcher.resolve path = some (mounted.backend, rel) ∧ RelativeTo mounted path rel
  opened : ∀ caller flags world handle after,
    dispatcher.openFile caller path flags world = (.ok handle, after) →
      ∃ backend rel own, dispatcher.resolve path = some (backend, rel) ∧
        (dispatcher.object backend).openFile rel flags world = (.ok own, after) ∧
        dispatcher.resolveHandle handle = some (dispatcher.object backend, own)

theorem WellMounted.mount {dispatcher mounted : VfsDispatcher σ} {prefixPath : Text} {backend : ℕ}
    (hwell : WellMounted dispatcher.mounts)
    (hmount : dispatcher.mount prefixPath backend = .ok mounted) : WellMounted mounted.mounts := by
  unfold VfsDispatcher.mount at hmount
  split_ifs at hmount with hfull hlength htaken
  cases hmount
  rw [any_eq_true] at htaken
  refine ⟨?_, ?_, ?_⟩
  · rw [length_append, length_singleton]
    omega
  · rw [map_append, nodup_append]
    refine ⟨hwell.distinct, by simp, ?_⟩
    intro held hheld new hnew heq
    obtain ⟨other, hother, rfl⟩ := mem_map.mp hheld
    rw [map_singleton, mem_singleton] at hnew
    exact htaken ⟨other, hother, decide_eq_true (heq.trans hnew)⟩
  · intro other hother
    rcases mem_append.mp hother with hheld | hnew
    · exact hwell.nonempty other hheld
    · rw [mem_singleton.mp hnew]
      exact fun hnil => hlength (.inl (congrArg length hnil))

theorem wellMounted_mountAll {dispatcher : VfsDispatcher σ} (hwell : WellMounted dispatcher.mounts)
    (calls : List (Text × ℕ)) : WellMounted (mountAll dispatcher calls).mounts := by
  induction calls generalizing dispatcher with
  | nil => exact hwell
  | cons call calls ih =>
    refine ih ?_
    dsimp only
    split
    case h_1 mounted hmount => exact hwell.mount hmount
    case h_2 => exact hwell

section Search

variable {mounts : List VfsMount} {mounted : VfsMount} {path rest : Text}

theorem covers_iff :
    mounted.covers path = true ↔
      mounted.prefixPath = path ∨ mounted.prefixPath ++ [pathSeparator] <+: path := by
  rw [VfsMount.covers, Bool.and_eq_true, isPrefixOf_iff_prefix]
  constructor
  · rintro ⟨⟨tail, rfl⟩, hafter⟩
    rw [drop_left] at hafter
    cases tail with
    | nil => exact .inl (append_nil _).symm
    | cons after tail =>
      rw [of_decide_eq_true hafter]
      exact .inr ⟨tail, append_assoc _ _ _⟩
  · rintro (rfl | ⟨tail, rfl⟩)
    · rw [drop_length]
      exact ⟨prefix_rfl, rfl⟩
    · rw [append_assoc, drop_left]
      exact ⟨prefix_append _ _, decide_eq_true rfl⟩

/-- A turn of the loop keeps the longer one of two mounts that serve the path. -/
theorem considerMount_eq {best : Option VfsMount} (hnonempty : mounted.prefixPath ≠ []) :
    considerMount path best mounted = if Serves mounted path then
      argAux (fun new held => held.prefixPath.length < new.prefixPath.length) best mounted
        else best := by
  have hpositive := length_pos_iff.mpr hnonempty
  have hlonger : argAux (fun new held => held.prefixPath.length < new.prefixPath.length) best
      mounted = if bestLength best < mounted.prefixPath.length then some mounted else best := by
    cases best with
    | none => exact (if_pos hpositive).symm
    | some held => rfl
  rw [hlonger, considerMount, if_neg (Nat.ne_of_gt hpositive)]
  by_cases hroot : mounted.isRoot
  · have hone : mounted.prefixPath.length = 1 := congrArg length (of_decide_eq_true hroot)
    rw [if_pos hroot, if_pos (show Serves mounted path from .inl hroot), hone]
    simp
  · have hserves : Serves mounted path ↔ mounted.covers path = true := by
      rw [covers_iff, Serves, or_iff_right hroot]
    rw [if_neg hroot, ite_and]
    simp only [hserves]

theorem findMountForPath_eq {dispatcher : VfsDispatcher σ} (hwell : WellMounted dispatcher.mounts) :
    dispatcher.findMountForPath path = (dispatcher.mounts.filter (Serves · path)).argmax
      fun mounted => mounted.prefixPath.length := by
  rw [argmax, foldl_filter]
  refine foldl_ext _ _ none fun best mounted hmem => ?_
  rw [considerMount_eq (hwell.nonempty mounted hmem)]
  simp [decide_eq_true_eq]

/-- The prefix of a mount that serves an absolute path is a prefix of it. -/
theorem Serves.isPrefix (hserves : Serves mounted (pathSeparator :: rest)) :
    mounted.prefixPath <+: pathSeparator :: rest := by
  rcases hserves with hroot | heq | hbelow
  · rw [of_decide_eq_true hroot]
    exact ⟨rest, rfl⟩
  · rw [heq]
  · exact (prefix_append _ _).trans hbelow

theorem findMountForPath_eq_some_iff {dispatcher : VfsDispatcher σ}
    (hwell : WellMounted dispatcher.mounts) :
    dispatcher.findMountForPath (pathSeparator :: rest) = some mounted ↔
      Longest dispatcher.mounts (pathSeparator :: rest) mounted := by
  rw [findMountForPath_eq hwell, argmax_eq_some_iff]
  simp only [mem_filter, decide_eq_true_eq, and_imp]
  constructor
  · rintro ⟨⟨hmem, hserves⟩, hlongest, -⟩
    exact ⟨hmem, hserves, hlongest⟩
  · intro hlongest
    refine ⟨⟨hlongest.mem, hlongest.serves⟩, hlongest.longest, fun other hmem hserves hlength => ?_⟩
    -- Two prefixes of one path that are equally long are equal, and no two mounts share a
    -- prefix.
    have hprefix := (prefix_of_prefix_length_le hlongest.serves.isPrefix hserves.isPrefix
      hlength).eq_of_length (le_antisymm hlength (hlongest.longest other hmem hserves))
    rw [inj_on_of_nodup_map hwell.distinct hlongest.mem hmem hprefix]

theorem relativeTo_relativePath (hserves : Serves mounted path) :
    RelativeTo mounted path (VfsDispatcher.relativePath mounted path) := by
  unfold VfsDispatcher.relativePath
  refine ⟨fun hroot => if_pos hroot, fun hroot hpoint => ?_, fun hroot hbelow => ?_⟩
  · rw [if_neg hroot, ← hpoint, drop_length, if_pos rfl]
  · obtain ⟨tail, rfl⟩ := (hserves.resolve_left hroot).resolve_left hbelow
    rw [if_neg hroot, append_assoc, drop_left]
    exact congrArg _ (if_neg (cons_ne_nil _ _))

end Search

theorem mountId_spec {dispatcher : VfsDispatcher σ} {backend : ℕ}
    (hmounted : dispatcher.mountId backend ≠ 0) :
    ∃ mounted, dispatcher.mounts[dispatcher.mountId backend - 1]? = some mounted ∧
      mounted.backend = backend := by
  unfold VfsDispatcher.mountId at hmounted ⊢
  split at hmounted
  case h_1 index hindex =>
    obtain ⟨hbound, hbackend, -⟩ := findIdx?_eq_some_iff_getElem.mp hindex
    exact ⟨dispatcher.mounts[index], getElem?_eq_getElem hbound, of_decide_eq_true hbackend⟩
  case h_2 => exact absurd rfl hmounted

/-- The two parts of a handle can be told apart. -/
theorem handle_parts {mountId own : ℕ} (hmount : mountId ≤ vfsHandleMountMax)
    (hown : own ≤ vfsHandleBackendMask) :
    (mountId <<< vfsHandleMountShift ||| own) >>> vfsHandleMountShift &&& vfsHandleMountMax =
        mountId ∧
      (mountId <<< vfsHandleMountShift ||| own) &&& vfsHandleBackendMask = own := by
  have hmask : vfsHandleBackendMask = 2 ^ 24 - 1 := rfl
  have hmax : vfsHandleMountMax = 2 ^ 7 - 1 := rfl
  have hshift : vfsHandleMountShift = 24 := rfl
  rw [hmask] at hown ⊢
  rw [hmax] at hmount ⊢
  rw [hshift, ← Nat.shiftLeft_add_eq_or_of_lt (by omega),
    Nat.and_two_pow_sub_one_eq_mod, Nat.and_two_pow_sub_one_eq_mod]
  omega

theorem resolveHandle_openFile {dispatcher : VfsDispatcher σ} (hwell : WellMounted dispatcher.mounts)
    {caller : Caller} {path : Text} {flags : UInt8} {world after : σ} {handle : ℕ}
    (hopened : dispatcher.openFile caller path flags world = (.ok handle, after)) :
    ∃ backend rel own, dispatcher.resolve path = some (backend, rel) ∧
      (dispatcher.object backend).openFile rel flags world = (.ok own, after) ∧
      dispatcher.resolveHandle handle = some (dispatcher.object backend, own) := by
  unfold VfsDispatcher.openFile at hopened
  split_ifs at hopened
  · cases hopened
  · cases hopened
  split at hopened
  case h_1 => cases hopened
  case h_2 backend rel hresolve =>
  split_ifs at hopened with hmounted
  · cases hopened
  split at hopened
  case h_1 => cases hopened
  case h_2 own world' hown =>
  split_ifs at hopened with hlarge
  · cases hopened
  cases hopened
  obtain ⟨mounted, hfound, rfl⟩ := mountId_spec hmounted
  have hindex := (List.getElem?_eq_some_iff.mp hfound).1
  have hfew : dispatcher.mounts.length ≤ 5 := hwell.few
  have hid : dispatcher.mountId mounted.backend ≤ vfsHandleMountMax := by
    rw [show vfsHandleMountMax = 127 from rfl]
    omega
  obtain ⟨hfirst, hsecond⟩ := handle_parts hid (Nat.le_of_not_lt hlarge)
  refine ⟨_, rel, own, hresolve, hown, ?_⟩
  unfold VfsDispatcher.resolveHandle
  rw [hfirst, hsecond]
  simp [hmounted, hfound, Option.map_some]

/-- After any calls of `mount`, every absolute path is resolved by its longest mount. -/
theorem resolvesLongest_mountAll (privDepth : UInt8) (object : ℕ → FileSystem σ)
    (calls : List (Text × ℕ)) (rest : Text) :
    ResolvesLongest (mountAll { mounts := [], privDepth := privDepth, object := object } calls)
      (pathSeparator :: rest) := by
  have hwell := @wellMounted_mountAll σ { mounts := [], privDepth := privDepth, object := object }
    ⟨Nat.zero_le _, nodup_nil, nofun⟩ calls
  generalize mountAll _ calls = dispatcher at hwell ⊢
  have hnamed := fun mounted => @findMountForPath_eq_some_iff σ mounted rest dispatcher hwell
  refine ⟨hnamed, fun mounted hlongest => ⟨_, ?_, relativeTo_relativePath hlongest.serves⟩,
    fun _ _ _ _ _ hopened => resolveHandle_openFile hwell hopened⟩
  rw [VfsDispatcher.resolve, (hnamed mounted).mpr hlongest, Option.map_some]

/-- The root mount does not take its prefix off the path. -/
theorem root_keeps_prefix :
    (mountAll (⟨[], 0, fun _ => default⟩ : VfsDispatcher ℕ) [([0x2F], 0)]).resolve [0x2F, 0x61] =
        some (0, [0x2F, 0x61]) ∧
      ([0x2F] ++ [0x2F, 0x61] : Text) ≠ [0x2F, 0x61] :=
  ⟨rfl, by decide⟩

end PdiStack.MountTable
