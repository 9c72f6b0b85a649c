import FlatTree.Content
import FlatTree.Delay
import FlatTree.Stat

/-!
Nodes: the files, directories and symbolic links that a table gives paths to. A node is its own view
for reading and writing. Its kind, its link target, its delay and its time of creation are fixed; a
rename changes its path, transfers change its content, and the end of a transfer its last error.
-/

namespace FlatTree

structure Node where
  path : Path
  isDirectory : Bool := false
  /-- Where a symbolic link points; empty for other kinds. -/
  target : Path := []
  /-- Seconds that a write takes for each byte. -/
  delay : Delay := none
  /-- Time of creation, which no write changes. -/
  createdAt : Int := 0
  content : Bytes := []
  /-- How the last transfer that ended with an error ended. -/
  transferError : Option Failure := none
  deriving DecidableEq, Inhabited

namespace Node

/-- A node with a link target is a symbolic link. -/
def isLink (node : Node) : Bool := node.target != []

/-- A regular file is neither a directory nor a symbolic link. -/
def isFile (node : Node) : Bool := !node.isDirectory && !node.isLink

def size (node : Node) : Nat := node.content.length

/-- The last segment of the path, or the whole path if that segment is empty. -/
def name (node : Node) : Path :=
  if node.path.base = [] then node.path else node.path.base

/-- Type and permission bits. Being a directory comes before being a link. -/
def mode (node : Node) : Nat :=
  if node.isDirectory then 0o40755 else if node.isLink then 0o120777 else 0o100644

/-- The mode in letters. -/
def modeText (node : Node) : String :=
  if node.isDirectory then "drwxr-xr-x"
  else if node.isLink then "lrwxrwxrwx" else "-rw-r--r--"

/-- The printed form. -/
def display (node : Node) : String :=
  "FileNode(" ++ String.ofList (Text.quoted node.path) ++ ", mode=" ++ node.modeText ++ ")"

/-- The metadata as it is now. -/
def stat (node : Node) : Stat where
  name := node.name
  path := node.path
  size := some (.whole node.size)
  mode := node.mode
  modifiedAt := node.createdAt
  target := node.target

/-- A directory is no view for transfers. -/
def viewFault? (node : Node) : Option Fault :=
  if node.isDirectory then some (.isADirectory node.path) else none

/-- Up to `size` bytes from `offset` on; fewer mean that the end was reached. -/
def readAt (node : Node) (size offset : Int) : Except Fault Bytes :=
  if offset < 0 then .error (.negative .readOffset offset)
  else if size < 0 then .error (.negative .readSize size)
  else .ok (node.content.read offset.toNat size.toNat)

/-- The buffer filled from its front with bytes from `offset` on, and how many there were. At the
end and past it the buffer is not touched. -/
def readInto (node : Node) (buffer : Bytes) (offset : Int) : Except Fault (Nat × Bytes) :=
  if offset < 0 then .error (.negative .fillOffset offset)
  else if node.size ≤ offset.toNat then .ok (0, buffer)
  else
    let chunk := node.content.read offset.toNat buffer.length
    .ok (chunk.length, buffer.fill chunk)

/-- Why a content cannot grow by `count` bytes, if it cannot: a count must fit a signed word of 64
bits, and with the 33 bytes around it a string of bytes must fit it too. Counts below that are taken
to fit the memory of the machine: running out of memory is not modelled. -/
def growthFault? (count : Nat) : Option Fault :=
  if wordBound ≤ count then some .growthUnaddressable
  else if wordBound - 33 ≤ count then some .growthTooLarge
  else none

/-- The node with `data` written at `offset`. A gap before the offset is filled with zeros, also for
empty data, and the content never shrinks. The delay is taken before the content is touched. -/
def writeAt (node : Node) (data : Bytes) (offset : Int) : Except Fault Node :=
  if offset < 0 then .error (.negative .writeOffset offset)
  else
    match node.delay.fault? data.length with
    | some fault => .error fault
    | none =>
        match growthFault? (offset.toNat + data.length - node.size) with
        | some fault => .error fault
        | none => .ok { node with content := node.content.write offset.toNat data }

/-- The node with a content of exactly `size` bytes, cut or filled up with zeros. -/
def truncate (node : Node) (size : Int) : Except Fault Node :=
  if size < 0 then .error (.negative .newSize size)
  else if node.isDirectory then .error (.directoryTruncated node.path)
  else if node.isLink then .error (.linkTruncated node.path)
  else
    match growthFault? (size.toNat - node.size) with
    | some fault => .error fault
    | none => .ok { node with content := node.content.resize size.toNat }

end Node

end FlatTree
