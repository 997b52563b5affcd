import ServerConf.Application
import ServerConf.Text.Join
import ServerConf.Validation.Programs
import ServerConf.Validation.Verdict

/-!
Validating a configuration by running nginx on it, in Docker if that is wanted
and answers, else as it is installed. For that time the configuration stands in
a temporary file; that it can be written there is taken for granted.
-/

namespace ServerConf

structure Validator where
  useDocker : Bool := true
  nginxCommand : Given := .text Application.nginxCommand
  dockerImage : Given := .text Application.dockerImage
  timeout : Timeout := .decimal Application.validationTimeout
  deriving DecidableEq, Repr

namespace Validator

def describe (v : Validator) : String :=
  if v.useDocker then "Docker (" ++ v.dockerImage.shown ++ ")"
  else "Local nginx (" ++ v.nginxCommand.shown ++ ")"

def dockerAvailable (v : Validator) (p : Programs) : Bool × Programs :=
  if p.isInstalled (.text "docker") then
    match p.run ⟨["docker", "ps"], none, v.timeout⟩ with
    | (.finished code _ _, p) => (code = 0, p)
    | (.timedOut reason, p) => (false, p.report (.dockerUnusable reason))
    | (.notRun reason, p) => (false, p.report (.dockerUnusable reason))
  else
    (false, p)

def run (v : Validator) (command : List String) (config : String)
    (p : Programs) : Except Failure Verdict × Programs :=
  let call : Call := ⟨command, p.files.lookup config, v.timeout⟩
  match (p.report (.running command)).run call with
  | (.finished code stdout stderr, p) =>
    (.ok (.ofOutput (stdout ++ stderr) (code = 0)), p)
  | (.timedOut _, p) =>
    (.ok
      { isValid := false, output := ""
        errors :=
          ["nginx validation timed out after " ++ v.timeout.text ++ "s"] }, p)
  | (.notRun reason, p) => (.error (.notRun reason), p)

/-- Runs nginx by a command, each word of which has to be there. -/
def runGiven (v : Validator) (command : List Given) (config : String)
    (p : Programs) : Except Failure Verdict × Programs :=
  match Given.texts command with
  | .ok words => v.run words config p
  | .error place => (.error (.missingText place), p)

def dockerCommand (v : Validator) (config : String) : List Given :=
  ["docker", "run", "--rm", "-v",
    config ++ ":/etc/nginx/nginx.conf:ro"].map .text ++
    [v.dockerImage, .text "nginx", .text "-t"]

def localCommand (v : Validator) (config : String) : List Given :=
  [v.nginxCommand, .text "-t", .text "-c", .text config]

def validateLocally (v : Validator) (config : String) (p : Programs) :
    Except Failure Verdict × Programs :=
  if p.isInstalled v.nginxCommand then
    v.runGiven (v.localCommand config) config p
  else
    (.ok
      { isValid := false
        output := "nginx command not found: " ++ v.nginxCommand.shown
        errors :=
          ["nginx is not installed or not in PATH: " ++ v.nginxCommand.shown]
        warnings :=
          ["Consider installing nginx or using Docker validation"] }, p)

/-- Validates the configuration in the file `config`. -/
def validateFile (v : Validator) (config : String) (p : Programs) :
    Except Failure Verdict × Programs :=
  if v.useDocker then
    match v.dockerAvailable p with
    | (true, p) => v.runGiven (v.dockerCommand config) config p
    | (false, p) => v.validateLocally config p
  else
    v.validateLocally config p

/-- Validates `content`, for which `config` is the temporary file. -/
def validate (v : Validator) (config content : String) (p : Programs) :
    Except Failure Verdict × Programs :=
  let (result, after) := v.validateFile config (p.put config content)
  (result, after.remove)

end Validator

end ServerConf
