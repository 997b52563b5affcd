import ServerConf.Files.Path

namespace ServerConf

inductive FaultKind where
  | notFound
  | alreadyExists
  | notDirectory
  | isDirectory
  | nameTooLong
  deriving DecidableEq, Repr

def FaultKind.code : FaultKind → Nat
  | .notFound => 2
  | .alreadyExists => 17
  | .notDirectory => 20
  | .isDirectory => 21
  | .nameTooLong => 36

def FaultKind.describe : FaultKind → String
  | .notFound => "No such file or directory"
  | .alreadyExists => "File exists"
  | .notDirectory => "Not a directory"
  | .isDirectory => "Is a directory"
  | .nameTooLong => "File name too long"

structure FileFault where
  kind : FaultKind
  path : String
  deriving DecidableEq, Repr

def FileFault.message (f : FileFault) : String :=
  "[Errno " ++ toString f.kind.code ++ "] " ++ f.kind.describe ++ ": " ++
    Text.quoted f.path

end ServerConf
