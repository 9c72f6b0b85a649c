import FlatTree.Failure
import FlatTree.Service

/-!
The causes for which a call is refused. `Fault.failure` gives each cause its class, its number, its
message and the path it is about.
-/

namespace FlatTree

/-- The numbers of a transfer that must not be negative. -/
inductive Operand where
  | readOffset
  | readSize
  | fillOffset
  | writeOffset
  | newSize
  deriving DecidableEq

/-- What a message calls the number. -/
def Operand.complaint : Operand → String
  | .readOffset => "FileNode.read_at: negative offset"
  | .readSize => "FileNode.read_at: negative size"
  | .fillOffset => "FileNode.readinto_at: negative offset"
  | .writeOffset => "FileNode.write_at: negative offset"
  | .newSize => "FileNode.truncate: negative size"

inductive Fault where
  /-- No method has this name. -/
  | unknownMethod (name : String)
  /-- No entry has this path. -/
  | notFound (path : Path)
  /-- The path is taken. -/
  | alreadyExists (path : Path)
  | notADirectory (path : Path)
  /-- The root was to be renamed. -/
  | rootRenamed (path : Path)
  /-- The root was to be removed. -/
  | rootRemoved (path : Path)
  /-- A directory was to become an entry of its own. -/
  | insideItself (path : Path)
  /-- A directory has no bytes to transfer. -/
  | isADirectory (path : Path)
  /-- A new file needs a directory to stand in. -/
  | parentNotADirectory (path : Path)
  | directoryTruncated (path : Path)
  | linkTruncated (path : Path)
  | notEmpty (path : Path)
  /-- Directories have one name only. -/
  | directoryLinked (path : Path)
  /-- Following the links from a path took up the bound on hops. -/
  | tooManyHops (path : Path) (hops : Nat)
  /-- The links from a path form a circle and no bound ends the search. No call comes to an end with
  this cause: it stands for a search that goes on for ever. -/
  | endlessChain (path : Path)
  | unsupported (method : Method) (service : Service)
  | negative (operand : Operand) (value : Int)
  /-- A span of time is not a number. -/
  | spanNotANumber
  /-- A span of time is outside the range of the clock. -/
  | spanOutOfRange
  /-- The delay of a write is negative. -/
  | delayNegative
  /-- A wait would take a negative time. -/
  | waitNegative
  /-- Nothing ends a wait. No wait comes to an end with this cause: it stands for one that goes on
  for ever. -/
  | endlessWait
  /-- A deadline is farther away than any floating number tells. -/
  | deadlineTooFar
  /-- The size that a file is to get is no integer. -/
  | sizeNotWhole
  /-- A content would grow by a number of bytes that fits no machine word. -/
  | growthUnaddressable
  /-- A content would grow by more bytes than one string of bytes can have. -/
  | growthTooLarge
  deriving DecidableEq

namespace Fault

/-- The failure of an operation on the wrong kind of entry. -/
def misuse (message : String) (path : Path) : Failure :=
  .invalidOperation (.text message.toList) (.text path)

/-- The failure that a refusal for this cause is reported as. -/
def failure : Fault → Failure
  | .unknownMethod name =>
      .ofMessage .value
        (String.ofList (Text.quoted name.toList) ++ " is not a valid Method")
  | .notFound path => .ofCode .fileNotFound .noEntry "No such file or directory" (some path)
  | .alreadyExists path => .ofCode .fileExists .exists "File exists" (some path)
  | .notADirectory path => .ofCode .notADirectory .notDirectory "Not a directory" (some path)
  | .rootRenamed path =>
      .ofCode .permission .notPermitted "Cannot rename root directory" (some path)
  | .rootRemoved path =>
      .ofCode .permission .notPermitted "Cannot remove root directory" (some path)
  | .insideItself path => misuse "Cannot move a directory into itself" path
  | .isADirectory path => misuse "Is a directory" path
  | .parentNotADirectory path => misuse "Parent is not a directory" path
  | .directoryTruncated path => misuse "Cannot truncate a directory" path
  | .linkTruncated path => misuse "Cannot truncate a symlink" path
  | .notEmpty path => .directoryNotEmpty (.text path)
  | .directoryLinked path => .hardLinkDirectory (.text path)
  | .tooManyHops path hops => .symlinkLoop (.text path) (toString hops)
  -- Nobody hears of this failure or of that of an endless wait: they stand for no answer at all.
  | .endlessChain path => .symlinkLoop (.text path) "no limit"
  | .unsupported method service => .unsupportedMethod method.name service.name
  | .negative operand value => .ofMessage .value (operand.complaint ++ " " ++ toString value)
  | .spanNotANumber => .ofMessage .value "Invalid value NaN (not a number)"
  | .spanOutOfRange =>
      .ofMessage .overflow "timestamp too large to convert to C _PyTime_t"
  | .delayNegative => .ofMessage .value "sleep length must be non-negative"
  | .waitNegative => .ofMessage .value "timeout value must be positive"
  | .endlessWait => .ofMessage .runtime "nothing ends the wait"
  | .deadlineTooFar => .ofMessage .overflow "int too large to convert to float"
  | .sizeNotWhole => .ofMessage .type "size must be an integer"
  | .growthUnaddressable =>
      .ofMessage .overflow "cannot fit 'int' into an index-sized integer"
  | .growthTooLarge => .ofMessage .overflow "byte string is too large"

end Fault

end FlatTree
