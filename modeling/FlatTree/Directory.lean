import FlatTree.State
import FlatTree.Listing

/-!
Listings of a store: the entries of a directory in the order of their paths, or one entry alone.
-/

namespace FlatTree.Directory

open Act

/-- The nodes of the paths whose parent is the path of a directory's node. -/
def children (directory : Node) : Act Listing := do
  let volume := (← get).volume
  return ⟨(volume.children directory.path).filterMap volume.table.live?⟩

/-- Serves the methods that list: `list` for the entries of a directory, `stat` and `readlink` for
the entry itself. Links are followed first, whatever the method. -/
def list (request : Request) : Act Listing :=
  serving request do
    let id ← resolve request.path
    match request.method with
    | .list =>
        let node ← node id
        if node.isDirectory then children node else refuse (.notADirectory request.path)
    | .stat | .readlink => return ⟨[id]⟩
    | method => refuse (.unsupported method .list)

/-- The entry of a request, no link followed. -/
def lstat (request : Request) : Act Listing :=
  serving request do
    let id ← lookUp request.path
    return ⟨[id]⟩

end FlatTree.Directory
