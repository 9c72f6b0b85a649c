import FlatTree.Transfer

/-!
The commands that change the table of a store. Each command makes all its checks before it changes
anything, but for the stale path that a failed look-up takes out, and logs one record when its
change is complete. A new entry needs a parent that leads to a directory; its path is kept as given.
-/

namespace FlatTree

namespace Command

open Act

/-- The parent of a path must lead to a directory. -/
def requireParent (path : Path) : Act Unit := do
  let parent ← node (← resolve path.parent)
  if parent.isDirectory then return () else refuse (.notADirectory parent.path)

/-- A path must be free. -/
def requireFree (path : Path) : Act Unit := do
  if (← get).volume.occupied path then refuse (.alreadyExists path) else return ()

/-- Sets the size of an entry, if the attributes name one. -/
def setstat (request : Request) : Act Unit := do
  let id ← resolve request.path
  if request.attributes.hasSize then
    match request.attributes.size with
    | some (.whole size) => Transfer.truncate id size
    | _ => refuse .sizeNotWhole
  else return ()

/-- Moves an entry, and with a directory all that is below it, to a free path. No moved entry may
take the place of another entry. -/
def rename (source target : Path) : Act Unit := do
  if source = Path.root then refuse (.rootRenamed source)
  else
    let id ← lookUp source
    requireFree target
    let isDirectory := (← node id).isDirectory
    if isDirectory ∧ target.Under source then refuse (.insideItself target)
    else
      requireParent target
      let volume := (← get).volume
      let moves := volume.moves id isDirectory source target
      match moves.tail.find? fun move => volume.occupied move.target with
      | some move => refuse (.alreadyExists move.target)
      | none =>
          modify (·.relocate moves)
          log (.renamed source target)

/-- Removes an entry. When the parent leads to a directory there must be no entries below; a path
without an entry is removed as well, and nothing is logged for it. -/
def remove (path : Path) : Act Unit := do
  if path = Path.root then refuse (.rootRemoved path)
  else
    let parent ← node (← resolve path.parent)
    let volume := (← get).volume
    if parent.isDirectory ∧ volume.below path ≠ [] then refuse (.notEmpty path)
    else
      modify (·.purge path)
      if (volume.table.live? path).isSome then log (.removed path) else return ()

/-- Makes a directory. -/
def mkdir (path : Path) : Act Unit := do
  requireParent path
  requireFree path
  let id ← makeNode { path, isDirectory := true }
  place path id
  log (.directoryCreated path)

/-- Gives the node that a path leads to a second path. -/
def link (path target : Path) : Act Unit := do
  let id ← resolve path
  if (← node id).isDirectory then refuse (.directoryLinked path)
  else
    requireFree target
    requireParent target
    place target id
    log (.linked target path)

/-- Makes a symbolic link at `target` that points to `path`, which must lead to a node. -/
def symlink (path target : Path) : Act Unit := do
  let _ ← resolve path
  requireFree target
  requireParent target
  let id ← makeNode { path := target, target := path }
  place target id
  log (.symlinked target path)

/-- The command that a method names. -/
def perform (request : Request) : Act Unit :=
  match request.method with
  | .setstat => setstat request
  | .rename => rename request.path request.target
  | .rmdir | .remove => remove request.path
  | .mkdir => mkdir request.path
  | .link => link request.path request.target
  | .symlink => symlink request.path request.target
  | method => refuse (.unsupported method .command)

/-- Serves the methods that change the table of a store. -/
def serve (request : Request) : Act Unit :=
  serving request (perform request)

end Command

end FlatTree
