import ServerConf.Application
import ServerConf.CommandLine.Switch
import ServerConf.Text.Join
import ServerConf.Text.Quoted

namespace ServerConf.CommandLine

def usageLines : List String :=
  ["usage: ncl-gen [-h] [-o PATH] [--stdout] [--no-inline] [--indent STRING]",
    "               [--validate] [--validate-only] [--no-docker]",
    "               [--nginx-command CMD] [--docker-image IMAGE] [-v] [-d] [-q]",
    "               [--log-file PATH] [--no-color] [--version]",
    "               input"]

def helpLines : List String :=
  usageLines ++
    ["",
      Application.description,
      "",
      "positional arguments:",
      "  input                 Input NCL file path",
      "",
      "options:",
      "  -h, --help            show this help message and exit",
      "  -o PATH, --output PATH",
      "                        Output file path (default: <input>.conf)",
      "  --stdout              Write the generated configuration to stdout instead of",
      "                        a file",
      "  --no-inline           Do not expand %inline() template references",
      "  --indent STRING       Indentation string (default: \" \")",
      "  --validate            Validate the generated configuration with nginx -t",
      "                        after writing it",
      "  --validate-only       Validate the generated configuration without writing",
      "                        it",
      "  --no-docker           Validate with a local nginx instead of Docker",
      "  --nginx-command CMD   Local nginx binary (default: nginx)",
      "  --docker-image IMAGE  Docker image used for validation (default:",
      "                        nginx:alpine)",
      "  -v, --verbose         Enable verbose logging (INFO level)",
      "  -d, --debug           Enable debug logging (DEBUG level)",
      "  -q, --quiet           Quiet mode (only errors)",
      "  --log-file PATH       Write logs to file",
      "  --no-color            Disable colored output",
      "  --version             show program's version number and exit"]

def unlines (lines : List String) : String :=
  String.join (lines.map (· ++ "\n"))

def versionText : String :=
  Application.name ++ " " ++ Application.version ++ "\n"

inductive UsageError where
  | inputRequired
  | unrecognized (words : List String)
  | ambiguous (word : String) (candidates : List String)
  | valueRequired (switch : Switch)
  | valueIgnored (switch : Switch) (value : String)
  deriving DecidableEq, Repr

namespace UsageError

def message : UsageError → String
  | .inputRequired => "the following arguments are required: input"
  | .unrecognized words => "unrecognized arguments: " ++ Text.joinWith " " words
  | .ambiguous word candidates =>
    "ambiguous option: " ++ word ++ " could match " ++
      Text.joinWith ", " candidates
  | .valueRequired switch =>
    "argument " ++ Text.joinWith "/" switch.names ++ ": expected one argument"
  | .valueIgnored switch value =>
    "argument " ++ Text.joinWith "/" switch.names ++
      ": ignored explicit argument " ++
      Text.quoted value

def text (e : UsageError) : String :=
  unlines (usageLines ++ [Application.name ++ ": error: " ++ e.message])

end UsageError

end ServerConf.CommandLine
