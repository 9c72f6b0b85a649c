/-!
The services of a store, under the names by which a request server calls them.
-/

namespace FlatTree

/-- The services of a store that requests are handed to. -/
inductive Service where
  | read
  | write
  | openFile
  | list
  | lstat
  | command
  deriving DecidableEq, Inhabited

/-- The name under which a service is called. -/
def Service.name : Service → String
  | .read => "file_read"
  | .write => "file_write"
  | .openFile => "open_file"
  | .list => "file_list"
  | .lstat => "lstat"
  | .command => "file_cmd"

end FlatTree
