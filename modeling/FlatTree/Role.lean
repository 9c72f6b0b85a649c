import FlatTree.Service

/-!
The roles that a request server looks for in the objects it is given. A party fills a role when it
offers every member that the role needs.
-/

namespace FlatTree

/-- What a party can offer. -/
inductive Member where
  | service (service : Service)
  /-- Being told how a transfer ended. -/
  | transferError
  deriving DecidableEq

inductive Role where
  | reader
  | writer
  | openWriter
  | commander
  | lister
  | linkLister
  | transferErrorHandler
  deriving DecidableEq

namespace Role

/-- Every role, in the order in which a server asks for them. -/
def all : List Role :=
  [.reader, .writer, .openWriter, .commander, .lister, .linkLister, .transferErrorHandler]

def name : Role → String
  | .reader => "FileReader"
  | .writer => "FileWriter"
  | .openWriter => "OpenFileWriter"
  | .commander => "FileCmder"
  | .lister => "FileLister"
  | .linkLister => "LstatFileLister"
  | .transferErrorHandler => "TransferErrorHandler"

def needs : Role → List Member
  | .reader => [.service .read]
  | .writer => [.service .write]
  | .openWriter => [.service .write, .service .openFile]
  | .commander => [.service .command]
  | .lister => [.service .list]
  | .linkLister => [.service .list, .service .lstat]
  | .transferErrorHandler => [.transferError]

end Role

/-- The objects that a server is given. -/
inductive Party where
  | store
  | node
  | listing
  /-- The bundle of handlers, which keeps two of them under the names of services. -/
  | bundle
  | context
  deriving DecidableEq

namespace Party

def offers : Party → List Member
  | .store =>
      [.service .read, .service .write, .service .openFile, .service .list, .service .lstat,
        .service .command]
  | .node => [.transferError]
  | .listing => []
  | .bundle => [.service .command, .service .list]
  | .context => []

/-- The roles that a party fills. -/
def roles (party : Party) : List Role :=
  Role.all.filter fun role => role.needs.all (party.offers.contains ·)

end Party

end FlatTree
