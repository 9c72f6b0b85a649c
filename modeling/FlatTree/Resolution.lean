import FlatTree.Volume

/-!
Following symbolic links. From a path the search goes to the path's node, and while that node is a
symbolic link on to the path that it points to. The search is a function of a volume and a heap; it
comes with the trail of the paths that it looked up.
-/

namespace FlatTree

/-- How a search for the node of a path ends. -/
inductive Resolution where
  /-- At a node that is no symbolic link. -/
  | found (id : NodeId)
  /-- At a path that has no node. -/
  | missing (path : Path)
  /-- At a symbolic link when no hop is left. -/
  | stopped
  deriving DecidableEq

/-- A search: the paths looked up, first to last, and its end. -/
structure Search where
  trail : List Path
  resolution : Resolution
  deriving DecidableEq

namespace Volume

/-- Searches from a path with so many hops. -/
def search (volume : Volume) (heap : Heap) : Nat → Path → Search
  | hops, path =>
      match volume.live? path with
      | none => ⟨[path], .missing path⟩
      | some id =>
          if (heap.get id).isLink then
            match hops with
            | 0 => ⟨[path], .stopped⟩
            | hops + 1 =>
                let rest := volume.search heap hops (heap.get id).target
                ⟨path :: rest.trail, rest.resolution⟩
          else ⟨[path], .found id⟩

/-- So many hops suffice for every chain of links without a circle, for each hop leaves another
path that has a node: one of the table or the root. -/
def enoughHops (volume : Volume) : Nat :=
  volume.table.live.length + 1

/-- Searches from a path with the hops that the settings allow. -/
def resolve (volume : Volume) (heap : Heap) (path : Path) : Search :=
  volume.search heap (volume.settings.hopBound.getD volume.enoughHops) path

/-- The cause for which a search from a path is refused when it is stopped. With a bound on hops the
search gives up. Without one it has met a circle of links and goes on for ever, with the store
locked, and the cause only stands for the answer that never comes. -/
def stopFault (volume : Volume) (path : Path) : Fault :=
  match volume.settings.hopBound with
  | some hops => .tooManyHops path hops
  | none => .endlessChain path

end Volume

end FlatTree
