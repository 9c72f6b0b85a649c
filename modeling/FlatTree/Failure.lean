import FlatTree.ErrorClass
import FlatTree.Method
import FlatTree.Number.Word
import FlatTree.Path
import FlatTree.Text.Quoted

/-!
Error values: what a call is refused with, what a caller hands in as the outcome of a transfer, and
what a store can be told to answer every call with. A failure is of a class and keeps the details it
was made with. For an error of the operating system the details are an error number, a message and
what the error is about; all other failures just show them. `Failure.make` builds the failure of a
class from the details that the class asks for.
-/

namespace FlatTree

/-- A value that an error is made with. -/
inductive Detail where
  | text (content : List Char)
  | whole (n : Int)
  | operation (method : Method)
  | absent
  deriving DecidableEq

namespace Detail

/-- The detail as it reads on its own. -/
def plainText : Detail → String
  | .text content => String.ofList content
  | .whole n => toString n
  | .operation method => method.symbol
  | .absent => "None"

/-- The detail as it reads inside a printed form, where texts are quoted. -/
def display : Detail → String
  | .text content => String.ofList (Text.quoted content)
  | .whole n => toString n
  | .operation method =>
      "<" ++ method.symbol ++ ": " ++ String.ofList (Text.quoted method.name.toList) ++ ">"
  | .absent => "None"

/-- The path that a detail names. -/
def path? : Detail → Option Path
  | .text content => some content
  | _ => none

/-- The number that a detail is. -/
def whole? : Detail → Option Int
  | .whole n => some n
  | _ => none

def ofPath? : Option Path → Detail
  | none => .absent
  | some path => .text path

end Detail

structure Failure where
  kind : ErrorClass
  details : List Detail
  deriving DecidableEq

/-- Why an error cannot be made with some details. -/
inductive DetailFault where
  /-- Details that the class asks for were not given. -/
  | missing (kind : ErrorClass) (names : List String)
  /-- More details were given than the class takes, which is at least and at most so many. -/
  | excess (kind : ErrorClass) (least most given : Nat)
  /-- An operation that would block reports an amount that fits no signed word of 64 bits. -/
  | unaddressable
  deriving DecidableEq

namespace Failure

/-- Two to five details make an error of the operating system one with a number and a message. -/
def isCoded (failure : Failure) : Bool :=
  failure.kind.isOS && 2 ≤ failure.details.length && failure.details.length ≤ 5

/-- The detail at a place of an error with a number and a message. -/
def detail (place : Nat) (failure : Failure) : Detail :=
  if failure.isCoded then failure.details[place]?.getD .absent else .absent

/-- The error number. -/
def code (failure : Failure) : Detail := failure.detail 0

def message (failure : Failure) : Detail := failure.detail 1

/-- What the error is about. For an operation that would block, a number in this place is an amount
instead. -/
def subject (failure : Failure) : Detail :=
  match failure.kind, failure.detail 2 with
  | .blockingIO, .whole _ => .absent
  | _, subject => subject

/-- The second thing that the error is about, if it is about two. -/
def other (failure : Failure) : Detail :=
  if failure.subject = .absent then .absent else failure.detail 4

/-- The error number, where it is a number. -/
def code? (failure : Failure) : Option Int := failure.code.whole?

/-- The path that the error is about. -/
def path? (failure : Failure) : Option Path := failure.subject.path?

/-- The printed details in brackets. -/
def bracketed (details : List Detail) : String :=
  "(" ++ ", ".intercalate (details.map Detail.display) ++ ")"

/-- The failure as one line of text. -/
def text (failure : Failure) : String :=
  if failure.isCoded then
    let head := "[Errno " ++ failure.code.plainText ++ "] " ++ failure.message.plainText
    if failure.subject = .absent then head
    else if failure.other = .absent then head ++ ": " ++ failure.subject.display
    else head ++ ": " ++ failure.subject.display ++ " -> " ++ failure.other.display
  else
    match failure.details with
    | [] => ""
    | [detail] => detail.plainText
    | details => bracketed details

/-- The failure in the form in which it is logged: its class and what it was made with. An error
that is about something shows its number and its message only. -/
def display (failure : Failure) : String :=
  let shown := if failure.subject = .absent then failure.details else failure.details.take 2
  failure.kind.name ++ bracketed shown

/-- A failure with one of the known numbers. -/
def ofCode (kind : ErrorClass) (code : ErrorCode) (message : String) (subject : Option Path) :
    Failure :=
  ⟨kind, [.whole code.number, .text message.toList, .ofPath? subject]⟩

/-- A failure of a class of errors that carry nothing but a message. -/
def ofMessage (kind : ErrorClass) (message : String) : Failure :=
  ⟨kind, [.text message.toList]⟩

/-- The operation was tried on the wrong kind of entry. -/
def invalidOperation (message subject : Detail) : Failure :=
  ⟨.invalidOperation, [.whole ErrorCode.invalid.number, message, subject]⟩

/-- A directory was to be deleted that still has entries. -/
def directoryNotEmpty (subject : Detail) : Failure :=
  ⟨.directoryNotEmpty,
    [.whole ErrorCode.notEmpty.number, .text "Directory not empty".toList, subject]⟩

/-- A directory was to get a second name. -/
def hardLinkDirectory (subject : Detail) : Failure :=
  ⟨.hardLinkDirectory,
    [.whole ErrorCode.notPermitted.number, .text "hard link not allowed for directory".toList,
      subject]⟩

/-- A chain of symbolic links is longer than the bound. -/
def symlinkLoop (subject : Detail) (hops : String) : Failure :=
  ⟨.symlinkLoop,
    [.whole ErrorCode.loop.number,
      .text ("Too many levels of symbolic links (" ++ hops ++ ")").toList, subject]⟩

/-- A service was asked for a method it does not serve. -/
def unsupportedMethod (method service : String) : Failure :=
  ⟨.unsupportedMethod,
    [.whole ErrorCode.notSupported.number,
      .text (service ++ " does not support method " ++ method).toList]⟩

/-- The names of the details that a class asks for, and how many more it takes. Without an entry a
class takes any details. -/
def parameters? : ErrorClass → Option (List String × Nat)
  | .invalidOperation => some (["message"], 1)
  | .directoryNotEmpty | .hardLinkDirectory => some (["path"], 0)
  | .symlinkLoop => some (["path", "hops"], 0)
  | .unsupportedMethod => some (["method", "handler"], 0)
  | _ => none

/-- Why a class does not take so many details. -/
def countFault? (kind : ErrorClass) (given : Nat) : Option DetailFault :=
  match parameters? kind with
  | none => none
  | some (names, more) =>
      if given < names.length then some (.missing kind (names.drop given))
      else if names.length + more < given then
        some (.excess kind names.length (names.length + more) given)
      else none

/-- An error of the operating system. The plain class of such errors gives way to the class that the
error number decides. -/
def ofSystem (kind : ErrorClass) (details : List Detail) : Except DetailFault Failure :=
  let plain : Failure := ⟨kind, details⟩
  let failure : Failure :=
    match kind, plain.code with
    | .os, .whole code => ⟨.ofCode code, details⟩
    | _, _ => plain
  match failure.kind, failure.detail 2 with
  | .blockingIO, .whole amount => if FitsWord amount then .ok failure else .error .unaddressable
  | _, _ => .ok failure

/-- The failure of a class that is made with some details. -/
def make (kind : ErrorClass) (details : List Detail) : Except DetailFault Failure :=
  match countFault? kind details.length with
  | some fault => .error fault
  | none =>
      match kind, details with
      | .invalidOperation, message :: rest =>
          .ok (invalidOperation message (rest.head?.getD .absent))
      | .directoryNotEmpty, [subject] => .ok (directoryNotEmpty subject)
      | .hardLinkDirectory, [subject] => .ok (hardLinkDirectory subject)
      | .symlinkLoop, [subject, hops] => .ok (symlinkLoop subject hops.plainText)
      | .unsupportedMethod, [.operation method, service] =>
          .ok (unsupportedMethod method.name service.plainText)
      | .unsupportedMethod, [method, service] =>
          .ok (unsupportedMethod method.plainText service.plainText)
      | kind, details => if kind.isOS then ofSystem kind details else .ok ⟨kind, details⟩

end Failure

end FlatTree
