namespace ServerConf.CommandLine

inductive Flag where
  | stdout
  | noInline
  | validate
  | validateOnly
  | noDocker
  | verbose
  | debug
  | quiet
  | noColor
  deriving DecidableEq, Repr

inductive Setting where
  | output
  | indent
  | nginxCommand
  | dockerImage
  | logFile
  deriving DecidableEq, Repr

inductive Switch where
  | help
  | version
  | flag (f : Flag)
  | setting (s : Setting)
  deriving DecidableEq, Repr

namespace Switch

def takesValue : Switch → Bool
  | .setting _ => true
  | _ => false

/-- All options in the order of their definition, each with its spellings. -/
def table : List (Switch × List String) :=
  [(.help, ["-h", "--help"]),
    (.setting .output, ["-o", "--output"]),
    (.flag .stdout, ["--stdout"]),
    (.flag .noInline, ["--no-inline"]),
    (.setting .indent, ["--indent"]),
    (.flag .validate, ["--validate"]),
    (.flag .validateOnly, ["--validate-only"]),
    (.flag .noDocker, ["--no-docker"]),
    (.setting .nginxCommand, ["--nginx-command"]),
    (.setting .dockerImage, ["--docker-image"]),
    (.flag .verbose, ["-v", "--verbose"]),
    (.flag .debug, ["-d", "--debug"]),
    (.flag .quiet, ["-q", "--quiet"]),
    (.setting .logFile, ["--log-file"]),
    (.flag .noColor, ["--no-color"]),
    (.version, ["--version"])]

def spellings : List (String × Switch) :=
  table.flatMap fun (switch, names) => names.map fun name => (name, switch)

def ofSpelling? (spelling : String) : Option Switch :=
  spellings.lookup spelling

def names (switch : Switch) : List String :=
  (table.lookup switch).getD []

end Switch

end ServerConf.CommandLine
