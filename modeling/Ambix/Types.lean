import Ambix.Machine.Bytes

/-! The public enumerations and records of ambix.h and the chunk names. -/
namespace Ambix

inductive Err where
  | unknown | success | invalidHandle | invalidFile | invalidDimension | invalidFormat
  | invalidMatrix
deriving DecidableEq, Repr

inductive FileMode where
  | read | write | rdrw
deriving DecidableEq, Repr

def FileMode.canRead : FileMode → Bool
  | .read | .rdrw => true
  | .write => false

def FileMode.canWrite : FileMode → Bool
  | .write | .rdrw => true
  | .read => false

inductive FileFormat where
  | none | basic | extended
deriving DecidableEq, Repr

/-- `ambix_info_t`, reduced to the layout of a file. -/
structure Info where
  fileformat : FileFormat
  extrachannels : UInt32
  ambichannels : UInt32
deriving DecidableEq, Repr

/-- A NUL-terminated name in a `char[256]`: the bytes before the terminator. -/
structure Name where
  bytes : List UInt8
  nonul : 0 ∉ bytes
  fits : bytes.length ≤ 255
deriving DecidableEq

/-- `ambix_marker_t`. A position is kept as the bit pattern of its double. -/
structure Marker where
  position : UInt64
  name : Name
deriving DecidableEq

structure Region where
  startPosition : UInt64
  endPosition : UInt64
  name : Name
deriving DecidableEq

inductive ChunkId where
  | uuid | mark | regn | strg
deriving DecidableEq, Repr

def Name.empty : Name := ⟨[], by simp, by simp⟩

/-- What the terminator adds: the bytes a name takes in a string table. -/
def Name.size (n : Name) : Nat := n.bytes.length + 1

end Ambix
