import Mathlib.Algebra.Group.Nat.Defs
import FlatTree.Server
import FlatTree.Proofs.Tree

/-!
A file system that keeps a tree. Its operations walk from the root segment by
segment, attach and detach subtrees, and never look at a path as a text. It
answers the same calls as the flat store, with the numbers of the nodes or with
the class and the number of an error, and serves as the measure of that store.
It knows no symbolic links.
-/

namespace FlatTree

/-- What a call is refused with: the class of an error, and its number if it has one. -/
structure Objection where
  kind : ErrorClass
  code? : Option Int
  deriving DecidableEq

namespace Objection

def missing : Objection := ⟨.fileNotFound, some 2⟩

def occupied : Objection := ⟨.fileExists, some 17⟩

def notADirectory : Objection := ⟨.notADirectory, some 20⟩

def rootKept : Objection := ⟨.permission, some 1⟩

def wrongKind : Objection := ⟨.invalidOperation, some 22⟩

def notEmpty : Objection := ⟨.directoryNotEmpty, some 39⟩

def directoryLinked : Objection := ⟨.hardLinkDirectory, some 1⟩

def unsupported : Objection := ⟨.unsupportedMethod, some 95⟩

def negativeSize : Objection := ⟨.value, none⟩

def sizeNotWhole : Objection := ⟨.type, none⟩

def tooLarge : Objection := ⟨.overflow, none⟩

end Objection

/-- A tree, what its files contain, and how many nodes were ever made. -/
structure Hierarchy where
  tree : Tree
  content : NodeId → Bytes
  made : Nat

namespace Hierarchy

/-- A root directory and nothing else. -/
def start : Hierarchy where
  tree := .directory ⟨0⟩ []
  content := fun _ => []
  made := 1

variable (hierarchy : Hierarchy)

def find (path : List Segment) : Except Objection Tree :=
  match hierarchy.tree.walk path with
  | some sub => .ok sub
  | none => .error .missing

def requireFree (path : List Segment) : Except Objection Unit :=
  match hierarchy.tree.walk path with
  | some _ => .error .occupied
  | none => .ok ()

def requireParent (path : List Segment) : Except Objection Unit := do
  match ← hierarchy.find path.dropLast with
  | .file _ => throw .notADirectory
  | .directory _ _ => return ()

/-- Makes a node and attaches it. -/
def create (path : List Segment) (child : NodeId → Tree) : Hierarchy where
  tree := hierarchy.tree.attach path (child ⟨hierarchy.made⟩)
  content := fun id => if id = ⟨hierarchy.made⟩ then [] else hierarchy.content id
  made := hierarchy.made + 1

def view : Tree → Except Objection (Reply × Hierarchy)
  | .file id => .ok (.node id, hierarchy)
  | .directory _ _ => .error .wrongKind

def openToRead (path : List Segment) : Except Objection (Reply × Hierarchy) := do
  hierarchy.view (← hierarchy.find path)

def openToWrite (path : List Segment) : Except Objection (Reply × Hierarchy) :=
  match hierarchy.tree.walk path with
  | some sub => hierarchy.view sub
  | none => do
      match ← hierarchy.find path.dropLast with
      | .file _ => throw .wrongKind
      | .directory _ _ => return (.node ⟨hierarchy.made⟩, hierarchy.create path .file)

def list (method : Method) (path : List Segment) :
    Except Objection (Reply × Hierarchy) := do
  let sub ← hierarchy.find path
  match method with
  | .list =>
      match sub with
      | .file _ => throw .notADirectory
      | .directory _ entries =>
          return (.listing ⟨entries.map fun entry => entry.2.nodeId⟩, hierarchy)
  | .stat | .readlink => return (.listing ⟨[sub.nodeId]⟩, hierarchy)
  | _ => throw .unsupported

def lstat (path : List Segment) : Except Objection (Reply × Hierarchy) := do
  let sub ← hierarchy.find path
  return (.listing ⟨[sub.nodeId]⟩, hierarchy)

/-- A file can grow by fewer bytes than a string of bytes has room for. -/
def resize (sub : Tree) (size : Int) : Except Objection Hierarchy :=
  if size < 0 then .error .negativeSize
  else
    match sub with
    | .directory _ _ => .error .wrongKind
    | .file id =>
        if 2 ^ 63 - 33 ≤ size.toNat - (hierarchy.content id).length then .error .tooLarge
        else
          .ok { hierarchy with
            content := fun other =>
              if other = id then (hierarchy.content id).resize size.toNat
              else hierarchy.content other }

def setstat (attributes : Attributes) (path : List Segment) :
    Except Objection Hierarchy := do
  let sub ← hierarchy.find path
  if attributes.hasSize then
    match attributes.size with
    | some (.whole size) => hierarchy.resize sub size
    | _ => throw .sizeNotWhole
  else return hierarchy

/-- Detaches a subtree and attaches it again where nothing was. -/
def rename (source target : List Segment) : Except Objection Hierarchy := do
  if source = [] then throw .rootKept
  else
    let sub ← hierarchy.find source
    hierarchy.requireFree target
    if sub.isDirectory = true ∧ source <+: target then throw .wrongKind
    else
      hierarchy.requireParent target
      return { hierarchy with
        tree := (hierarchy.tree.detach source).attach target sub }

/-- Detaches an entry that has no entries. It is no error that there is none. -/
def remove (path : List Segment) : Except Objection Hierarchy := do
  if path = [] then throw .rootKept
  else
    match ← hierarchy.find path.dropLast with
    | .file _ => return hierarchy
    | .directory _ _ =>
        match hierarchy.tree.walk path with
        | some (.directory _ (_ :: _)) => throw .notEmpty
        | _ => return { hierarchy with tree := hierarchy.tree.detach path }

def mkdir (path : List Segment) : Except Objection Hierarchy := do
  hierarchy.requireParent path
  hierarchy.requireFree path
  return hierarchy.create path fun id => .directory id []

def link (path target : List Segment) : Except Objection Hierarchy := do
  match ← hierarchy.find path with
  | .directory _ _ => throw .directoryLinked
  | .file id =>
      hierarchy.requireFree target
      hierarchy.requireParent target
      return { hierarchy with tree := hierarchy.tree.attach target (.file id) }

def perform (request : Request) : Except Objection Hierarchy :=
  match request.method with
  | .setstat => hierarchy.setstat request.attributes request.path.segments
  | .rename => hierarchy.rename request.path.segments request.target.segments
  | .rmdir | .remove => hierarchy.remove request.path.segments
  | .mkdir => hierarchy.mkdir request.path.segments
  | .link => hierarchy.link request.path.segments request.target.segments
  | _ => .error .unsupported

/-- The reply to a call and the hierarchy after it. A call that is refused
leaves the hierarchy as it was. -/
def respond (call : Call) : Except Objection (Reply × Hierarchy) :=
  match call.service with
  | .read => hierarchy.openToRead call.request.path.segments
  | .write | .openFile => hierarchy.openToWrite call.request.path.segments
  | .list => hierarchy.list call.request.method call.request.path.segments
  | .lstat => hierarchy.lstat call.request.path.segments
  | .command => do return (.done, ← hierarchy.perform call.request)

def answer (call : Call) : Except Objection Reply :=
  match hierarchy.respond call with
  | .ok (reply, _) => .ok reply
  | .error objection => .error objection

def serve (call : Call) : Hierarchy :=
  match hierarchy.respond call with
  | .ok (_, after) => after
  | .error _ => hierarchy

def run (calls : List Call) : Hierarchy :=
  calls.foldl serve hierarchy

/-- The answers to a run of calls, first to last. -/
def answers (hierarchy : Hierarchy) : List Call → List (Except Objection Reply)
  | [] => []
  | call :: rest => hierarchy.answer call :: (hierarchy.serve call).answers rest

end Hierarchy

end FlatTree
