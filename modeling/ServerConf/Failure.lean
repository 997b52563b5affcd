import ServerConf.Files.Fault
import ServerConf.ParseError
import ServerConf.RenderError
import ServerConf.Text.Utf8
import ServerConf.Token.Scan

namespace ServerConf

inductive Failure where
  | scan (e : ScanError)
  | parse (e : ParseError)
  | render (e : RenderError)
  | decode (fault : Text.Utf8.Fault)
  | file (fault : FileFault)
  | nullInPath
  | namelessPath (path : String)
  | unendedTokens
  | flawed (flaw : Statement.Flaw)
  | nestedTooDeep
  | invalidFormat (format : String)
  | notRun (reason : String)
  | missingText (place : Nat)
  deriving DecidableEq, Repr

def Failure.message : Failure → String
  | .scan e => e.message
  | .parse e => e.message
  | .render e => e.message
  | .decode fault => fault.message
  | .file fault => fault.message
  | .nullInPath => "embedded null byte"
  | .namelessPath path =>
    "PosixPath(" ++ Text.quoted path ++ ") has an empty name"
  | .unendedTokens => "Token list must end with an EOF token"
  | .flawed flaw => flaw.message
  | .nestedTooDeep => "Nested too deep"
  | .invalidFormat format => "Invalid format '" ++ format ++ "' for '%' style"
  | .notRun reason => reason
  | .missingText place =>
    "sequence item " ++ toString place ++ ": expected str instance, list found"

end ServerConf
