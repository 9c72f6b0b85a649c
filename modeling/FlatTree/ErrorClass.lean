/-!
The classes and the numbers of errors. Every class is known by a name and lies in wider classes; an
error of the operating system that has a number is of the class that the number decides.
-/

namespace FlatTree

/-- The classes of errors. -/
inductive ErrorClass where
  | os
  | blockingIO
  | brokenPipe
  | childProcess
  | connectionAborted
  | connectionRefused
  | connectionReset
  | fileExists
  | fileNotFound
  | interrupted
  | isADirectory
  | notADirectory
  | permission
  | processLookup
  | timeout
  | invalidOperation
  | directoryNotEmpty
  | hardLinkDirectory
  | symlinkLoop
  | unsupportedMethod
  | runtime
  | value
  | endOfFile
  | overflow
  | index
  | type
  deriving DecidableEq, Inhabited

namespace ErrorClass

/-- Every class. -/
def all : List ErrorClass :=
  [.os, .blockingIO, .brokenPipe, .childProcess, .connectionAborted, .connectionRefused,
    .connectionReset, .fileExists, .fileNotFound, .interrupted, .isADirectory, .notADirectory,
    .permission, .processLookup, .timeout, .invalidOperation, .directoryNotEmpty,
    .hardLinkDirectory, .symlinkLoop, .unsupportedMethod, .runtime, .value, .endOfFile,
    .overflow, .index, .type]

def name : ErrorClass → String
  | .os => "OSError"
  | .blockingIO => "BlockingIOError"
  | .brokenPipe => "BrokenPipeError"
  | .childProcess => "ChildProcessError"
  | .connectionAborted => "ConnectionAbortedError"
  | .connectionRefused => "ConnectionRefusedError"
  | .connectionReset => "ConnectionResetError"
  | .fileExists => "FileExistsError"
  | .fileNotFound => "FileNotFoundError"
  | .interrupted => "InterruptedError"
  | .isADirectory => "IsADirectoryError"
  | .notADirectory => "NotADirectoryError"
  | .permission => "PermissionError"
  | .processLookup => "ProcessLookupError"
  | .timeout => "TimeoutError"
  | .invalidOperation => "InvalidOperationError"
  | .directoryNotEmpty => "DirectoryNotEmptyError"
  | .hardLinkDirectory => "HardLinkDirectoryError"
  | .symlinkLoop => "SymlinkLoopError"
  | .unsupportedMethod => "UnsupportedMethodError"
  | .runtime => "RuntimeError"
  | .value => "ValueError"
  | .endOfFile => "EOFError"
  | .overflow => "OverflowError"
  | .index => "IndexError"
  | .type => "TypeError"

def ofName? (name : String) : Option ErrorClass :=
  all.find? (·.name == name)

/-- The names of the classes that hold the errors of this class, its own first. For errors of the
operating system the list ends with their common class. -/
def lineage (kind : ErrorClass) : List String :=
  kind.name :: match kind with
    | .os => []
    | .brokenPipe | .connectionAborted | .connectionRefused | .connectionReset =>
        ["ConnectionError", "OSError"]
    | .hardLinkDirectory => ["IsADirectoryError", "OSError"]
    | .overflow => ["ArithmeticError", "Exception", "BaseException", "object"]
    | .index => ["LookupError", "Exception", "BaseException", "object"]
    | .runtime | .value | .endOfFile | .type => ["Exception", "BaseException", "object"]
    | _ => ["OSError"]

/-- Whether errors of the class are errors of the operating system. -/
def isOS (kind : ErrorClass) : Bool :=
  kind.lineage.contains "OSError"

/-- The class of an operating system error with a given number. -/
def ofCode : Int → ErrorClass
  | 1 | 13 => .permission
  | 2 => .fileNotFound
  | 3 => .processLookup
  | 4 => .interrupted
  | 10 => .childProcess
  | 11 | 114 | 115 => .blockingIO
  | 17 => .fileExists
  | 20 => .notADirectory
  | 21 => .isADirectory
  | 32 | 108 => .brokenPipe
  | 103 => .connectionAborted
  | 104 => .connectionReset
  | 110 => .timeout
  | 111 => .connectionRefused
  | _ => .os

end ErrorClass

/-- The error numbers in use. -/
inductive ErrorCode where
  | notPermitted
  | noEntry
  | exists
  | notDirectory
  | invalid
  | notEmpty
  | loop
  | notSupported
  deriving DecidableEq

/-- The numbers by which Linux knows the error codes. -/
def ErrorCode.number : ErrorCode → Int
  | .notPermitted => 1
  | .noEntry => 2
  | .exists => 17
  | .notDirectory => 20
  | .invalid => 22
  | .notEmpty => 39
  | .loop => 40
  | .notSupported => 95

end FlatTree
