import FlatTree.Settings
import FlatTree.Table

/-!
A volume: one store of the server. It holds its settings, the node of its root directory, and the
table of all other entries. The directory an entry is in is nowhere recorded; the entries of a
directory are the paths whose parent it is, and the entries below a path are those that continue it
with a slash.
-/

namespace FlatTree

structure Volume where
  settings : Settings
  /-- The root directory, which stands in no table. -/
  root : NodeId
  table : Table := .empty
  /-- The failure that every call is answered with, while there is one. -/
  injected : Option Failure := none
  deriving DecidableEq

namespace Volume

/-- The node of a path. -/
def live? (volume : Volume) (path : Path) : Option NodeId :=
  if path = Path.root then some volume.root else volume.table.live? path

/-- Whether a path has a node. -/
def occupied (volume : Volume) (path : Path) : Bool :=
  (volume.live? path).isSome

/-- The paths with a given parent, in code point order. -/
def children (volume : Volume) (parent : Path) : List Path :=
  Path.sort ((volume.table.live.map Prod.fst).filter (·.parent == parent))

/-- The entries below a path, in table order. -/
def below (volume : Volume) (path : Path) : List (Path × NodeId) :=
  volume.table.live.filter fun entry => entry.1.Under path

/-- The paths that hold a given node, in code point order. -/
def pathsOf (volume : Volume) (id : NodeId) : List Path :=
  Path.sort ((volume.table.live.filter (·.2 == id)).map Prod.fst)

end Volume

end FlatTree
