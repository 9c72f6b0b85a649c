import FlatTree.Request
import FlatTree.Table

/-!
What a server can be seen to do: the paths that it looks up and the records that it logs. Each
observation shows the request that is in force at that moment, and the nodes and the table as they
stand then.
-/

namespace FlatTree

/-- The logs that records go to: one for changes of a table, one for transfers over a node. -/
inductive Channel where
  | store
  | node
  deriving DecidableEq

/-- One record of a log. -/
inductive Record where
  | fileCreated (path : Path)
  | directoryCreated (path : Path)
  | renamed (source target : Path)
  | removed (path : Path)
  | linked (target path : Path)
  | symlinked (target path : Path)
  /-- A transfer was reported to have ended with an error, or with none. -/
  | transferEnded (path : Path) (failure : Option Failure)
  deriving DecidableEq

namespace Record

def channel : Record → Channel
  | .transferEnded .. => .node
  | _ => .store

def message : Record → String
  | .fileCreated path => "Created file " ++ String.ofList path
  | .directoryCreated path => "Created directory " ++ String.ofList path
  | .renamed source target =>
      "Renamed " ++ String.ofList source ++ " -> " ++ String.ofList target
  | .removed path => "Removed " ++ String.ofList path
  | .linked target path => "Linked " ++ String.ofList target ++ " -> " ++ String.ofList path
  | .symlinked target path =>
      "Symlinked " ++ String.ofList target ++ " -> " ++ String.ofList path
  | .transferEnded path failure =>
      "Transfer on " ++ String.ofList path ++ " ended with error: " ++
        (failure.map Failure.display).getD "None"

end Record

/-- What can be seen. -/
inductive Event where
  | lookedUp (path : Path)
  | logged (record : Record)
  deriving DecidableEq

structure Observation where
  event : Event
  /-- The request in force. -/
  current : Option Request
  heap : Heap
  table : Table
  deriving DecidableEq

/-- The record of an observation that is one. -/
def Observation.record? (observation : Observation) : Option Record :=
  match observation.event with
  | .lookedUp _ => none
  | .logged record => some record

end FlatTree
