import ServerConf.Failure
import ServerConf.Given
import ServerConf.Log.Record
import ServerConf.Text.Decimal

/-!
Other programs: which are installed, and what comes of running them. Each run
uses up the next of the results that are laid down, and is put on record. The
files that programs are pointed to are temporary ones, apart from the others.
-/

namespace ServerConf

inductive Timeout where
  | whole (seconds : Int)
  | decimal (seconds : Text.Decimal)
  deriving DecidableEq, Repr

def Timeout.text : Timeout → String
  | .whole seconds => toString seconds
  | .decimal seconds => seconds.text

inductive RunResult where
  | finished (code : Int) (stdout stderr : String)
  | timedOut (reason : String)
  | notRun (reason : String)
  deriving DecidableEq, Repr

/-- A run of a program, with the text of the file it was pointed to. -/
structure Call where
  command : List String
  config : Option String
  timeout : Timeout
  deriving DecidableEq, Repr

structure Programs where
  installed : List String := []
  results : List RunResult := []
  calls : List Call := []
  log : List Log.Event := []
  files : List (String × String) := []
  deriving DecidableEq, Repr

namespace Programs

def isInstalled (p : Programs) : Given → Bool
  | .text name => p.installed.contains name
  | .nothing => false

def report (p : Programs) (e : Log.Event) : Programs :=
  { p with log := p.log ++ [e] }

def put (p : Programs) (path text : String) : Programs :=
  { p with files := (path, text) :: p.files }

/-- Removes the temporary file that was written last. -/
def remove (p : Programs) : Programs :=
  { p with files := p.files.tail }

/-- Without a result laid down, a program cannot be run. -/
def run (p : Programs) (call : Call) : RunResult × Programs :=
  let after := { p with calls := p.calls ++ [call], results := p.results.tail }
  match p.results with
  | [] => (.notRun "cannot run", after)
  | result :: _ => (result, after)

end Programs

end ServerConf
