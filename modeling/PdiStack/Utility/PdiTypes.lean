import Mathlib

/-!
# Status codes

The status type shared by every part of the stack.  The source numbers the codes
in bands, one band for each section, so that a code can be traced to its origin.
Only the bands that a modelled function returns from are listed here.
-/

namespace PdiStack.PdiTypes

/-- `pdi_err`: zero on success, the generic codes, then one band for each
section of the stack. -/
inductive PdiErr where
  | ok
  | failure
  | invalidArg
  | nullPtr
  | noMem
  | notFound
  | notSupported
  | notInitialized
  | perm
  | exists
  | noSpace
  | io
  | range
  | corrupt
  | crc
  | storageBadPath
  | storageNameTooLong
  | storageNoParent
  | storageNotAFile
  | storageNotADirectory
  | storageReadOnly
  | storageNodeLimit
  | storageAttrNotFound
  | storageNotMounted
  | storageBackend
  | sshMacFailed
deriving DecidableEq, Repr, Inhabited

/-- How far the value of a code lies below zero. -/
def PdiErr.below : PdiErr → ℕ
  | .ok => 0
  | .failure => 1
  | .invalidArg => 2
  | .nullPtr => 3
  | .noMem => 4
  | .notFound => 6
  | .notSupported => 7
  | .notInitialized => 9
  | .perm => 12
  | .exists => 13
  | .noSpace => 14
  | .io => 15
  | .range => 18
  | .corrupt => 20
  | .crc => 21
  | .storageBadPath => 1801
  | .storageNameTooLong => 1802
  | .storageNoParent => 1803
  | .storageNotAFile => 1804
  | .storageNotADirectory => 1805
  | .storageReadOnly => 1806
  | .storageNodeLimit => 1807
  | .storageAttrNotFound => 1808
  | .storageNotMounted => 1809
  | .storageBackend => 1810
  | .sshMacFailed => 2101

/-- The status a caller sees of a call that returns a value or a code. -/
def statusOf {α : Type*} : Except PdiErr α → PdiErr
  | .ok _ => .ok
  | .error code => code

end PdiStack.PdiTypes
