import FlatTree.Command
import FlatTree.Directory

/-!
The services of a store behind one door: a call hands a request to a service, and the reply is a
node, a listing, or nothing.
-/

namespace FlatTree

structure Call where
  service : Service
  request : Request
  deriving DecidableEq

inductive Reply where
  | node (id : NodeId)
  | listing (listing : Listing)
  | done
  deriving DecidableEq

/-- Answers a call. -/
def Call.run (call : Call) : Act Reply :=
  match call.service with
  | .read => Reply.node <$> Transfer.openToRead call.request
  | .write | .openFile => Reply.node <$> Transfer.openToWrite call.request
  | .list => Reply.listing <$> Directory.list call.request
  | .lstat => Reply.listing <$> Directory.lstat call.request
  | .command => (fun _ => Reply.done) <$> Command.serve call.request

end FlatTree
