/-!
The operations a request can name, under the spellings in which a request server sends them.
-/

namespace FlatTree

inductive Method where
  | setstat
  | rename
  | rmdir
  | remove
  | mkdir
  | link
  | symlink
  | list
  | stat
  | readlink
  | get
  | put
  | openFile
  deriving DecidableEq, Inhabited

namespace Method

/-- Every method. -/
def all : List Method :=
  [.setstat, .rename, .rmdir, .remove, .mkdir, .link, .symlink, .list, .stat, .readlink, .get,
    .put, .openFile]

/-- The spelling on the wire. -/
def name : Method → String
  | .setstat => "Setstat"
  | .rename => "Rename"
  | .rmdir => "Rmdir"
  | .remove => "Remove"
  | .mkdir => "Mkdir"
  | .link => "Link"
  | .symlink => "Symlink"
  | .list => "List"
  | .stat => "Stat"
  | .readlink => "Readlink"
  | .get => "Get"
  | .put => "Put"
  | .openFile => "Open"

/-- The symbol that stands for the method among named constants: its spelling in capitals. -/
def symbol (method : Method) : String :=
  "Method." ++ String.ofList (method.name.toList.map Char.toUpper)

/-- The method with a given spelling. -/
def ofName? (name : String) : Option Method :=
  all.find? (·.name == name)

/-- Each method is found under its own spelling. -/
theorem ofName?_name (method : Method) : ofName? method.name = some method := by
  cases method <;> decide

end Method

end FlatTree
