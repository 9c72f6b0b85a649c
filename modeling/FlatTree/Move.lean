import FlatTree.Volume

/-!
The moves of a rename. A rename exchanges the front of a path, and with a directory the front of
every path below it. All sources leave the table before the first target enters it, so the targets
come last, in the order of the moves, but for those that a stale path keeps a place for.
-/

namespace FlatTree

/-- One entry that a rename moves. -/
structure Move where
  id : NodeId
  source : Path
  target : Path
  deriving DecidableEq

/-- The entries that a rename moves: the one named, and for a directory all entries below it in
table order, with the front of their paths exchanged. -/
def Volume.moves (volume : Volume) (id : NodeId) (isDirectory : Bool) (source target : Path) :
    List Move :=
  let below := if isDirectory then volume.below source else []
  ⟨id, source, target⟩ :: below.map fun (path, id) => ⟨id, path, path.rebase source target⟩

/-- Takes the sources of all moves out of a table, then puts their targets in. -/
def Table.relocate (moves : List Move) (table : Table) : Table :=
  let cleared := moves.foldl (fun table move => table.erase move.source) table
  moves.foldl (fun table move => table.insert move.target (some move.id)) cleared

/-- Gives each moved node the path that it moved to. A node that moves under several paths ends with
the last. -/
def Heap.relocate (moves : List Move) (heap : Heap) : Heap :=
  moves.foldl
    (fun heap move => heap.update move.id fun node => { node with path := move.target }) heap

end FlatTree
