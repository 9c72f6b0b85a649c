import FlatTree.Path
import FlatTree.Number.Scalar

/-!
Snapshots of an entry's metadata. The kind of the entry is read off the type bits of its mode, which
must be a word of 32 bits.
-/

namespace FlatTree

structure Stat where
  name : Path
  path : Path
  /-- Bytes of content. -/
  size : Quantity
  mode : Int
  /-- Microseconds since the epoch. -/
  modifiedAt : Int
  /-- Where a symbolic link points; empty for other kinds. -/
  target : Path := []
  deriving DecidableEq, Inhabited

/-- Why metadata cannot be read. -/
inductive StatFault where
  /-- The time of modification is so many days from the epoch, outside the years 1 to 9999. -/
  | timeOutOfRange (days : Int)
  | modeNegative
  /-- The mode is a word of 64 bits, but none of 32. -/
  | modeTooWide
  /-- The mode is no word of 64 bits. -/
  | modeUnaddressable
  deriving DecidableEq

namespace Stat

/-- The first microsecond of the year 1. -/
def earliest : Int := -62135596800000000

/-- The last microsecond of the year 9999. -/
def latest : Int := 253402300799999999

/-- Why a time is no time of modification, if it is none. -/
def timeFault? (microseconds : Int) : Option StatFault :=
  if earliest ≤ microseconds ∧ microseconds ≤ latest then none
  else some (.timeOutOfRange (microseconds.fdiv 86400000000))

/-- The four bits of a mode above its twelve permission bits. -/
def typeBits (mode : Int) : Except StatFault Int :=
  if mode < 0 then .error .modeNegative
  else if 2 * wordBound ≤ mode then .error .modeUnaddressable
  else if 0x100000000 ≤ mode then .error .modeTooWide
  else .ok (mode / 4096 % 16)

def isDirectory (stat : Stat) : Except StatFault Bool :=
  (typeBits stat.mode).map (· == 4)

def isLink (stat : Stat) : Except StatFault Bool :=
  (typeBits stat.mode).map (· == 10)

/-- The modification time in seconds, correctly rounded. -/
def modifiedSeconds (stat : Stat) : Floating :=
  .nearest (stat.modifiedAt < 0) stat.modifiedAt.natAbs 1000000

end Stat

end FlatTree
