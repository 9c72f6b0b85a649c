import FlatTree.State

/-!
Transfers: opening an entry for reading or writing, and moving bytes over the node that was opened.
Reading follows symbolic links. Writing makes the file when its path is free and the path's parent
is itself a directory; only an entry that exists is followed to where its links lead.
-/

namespace FlatTree.Transfer

open Act

/-- A node as a view for transfers, which a directory is not. -/
def view (id : NodeId) : Act NodeId := do
  match (← node id).viewFault? with
  | some fault => refuse fault
  | none => return id

/-- Opens the entry of a request for reading. -/
def openToRead (request : Request) : Act NodeId := do
  let id ← serving request (resolve request.path)
  view id

/-- Makes an empty file. Its parent is looked up and no link is followed. -/
def createFile (path : Path) : Act NodeId := do
  let parent ← lookUp path.parent
  let directory ← node parent
  if directory.isDirectory then
    let id ← makeNode { path }
    place path id
    log (.fileCreated path)
    return id
  else
    refuse (.parentNotADirectory directory.path)

/-- The node that writing to a path goes to. -/
def target (path : Path) : Act NodeId := do
  match ← seek path with
  | none => createFile path
  | some id =>
      if (← node id).isLink then resolve path else return id

/-- Opens the entry of a request for writing, and makes it if need be. -/
def openToWrite (request : Request) : Act NodeId := do
  let id ← serving request (target request.path)
  view id

/-- Reads bytes of a node. -/
def readAt (id : NodeId) (size offset : Int) : Act Bytes := do
  orRefuse ((← node id).readAt size offset)

/-- Reads bytes of a node into a buffer. -/
def readInto (id : NodeId) (buffer : Bytes) (offset : Int) : Act (Nat × Bytes) := do
  orRefuse ((← node id).readInto buffer offset)

/-- Writes bytes to a node and says how many. -/
def writeAt (id : NodeId) (data : Bytes) (offset : Int) : Act Nat := do
  let written ← orRefuse ((← node id).writeAt data offset)
  setNode id written
  return data.length

/-- Gives a node a content of exactly so many bytes. -/
def truncate (id : NodeId) (size : Int) : Act Unit := do
  let cut ← orRefuse ((← node id).truncate size)
  setNode id cut

/-- Notes the error that a transfer over a node ended with. Without one the last error is
forgotten. -/
def report (id : NodeId) (failure : Option Failure) : Act Unit := do
  let node ← node id
  log (.transferEnded node.path failure)
  setNode id { node with transferError := failure }

end FlatTree.Transfer
