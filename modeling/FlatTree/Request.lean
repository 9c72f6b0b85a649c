import FlatTree.Fault
import FlatTree.Attributes
import FlatTree.Context

/-!
Requests as the protocol layer decodes them: a method, the path it acts on, a second path for the
methods that need one, attributes, and the context of the caller.
-/

namespace FlatTree

structure Request where
  method : Method
  path : Path
  target : Path := []
  attributes : Attributes := {}
  context : Context := {}
  deriving DecidableEq, Inhabited

/-- A request whose method is given by its name on the wire. -/
def Request.named (method : String) (path target : Path) (attributes : Attributes)
    (context : Context) : Except Fault Request :=
  match Method.ofName? method with
  | none => .error (.unknownMethod method)
  | some method => .ok { method, path, target, attributes, context }

end FlatTree
