import ServerConf.CommandLine.Word
import ServerConf.Given

/-!
Reading a command line into options. Options act in the order they are met; help
and version end the reading at once. Two rules hold that later conventions for
command lines gave up: a separator is dropped also where it is the value of an
option, as in `--output=--`, and behind a short flag an equals sign may stand
before further short options, as in `-v=d`.
-/

namespace ServerConf.CommandLine

structure Options where
  input : String
  output : Option Given := none
  stdout : Bool := false
  noInline : Bool := false
  indent : Given := .text Application.indent
  validate : Bool := false
  validateOnly : Bool := false
  noDocker : Bool := false
  nginxCommand : Given := .text Application.nginxCommand
  dockerImage : Given := .text Application.dockerImage
  verbose : Bool := false
  debug : Bool := false
  quiet : Bool := false
  logFile : Option Given := none
  noColor : Bool := false
  deriving DecidableEq, Repr

/-- Why a command line gives no options. -/
inductive Exit where
  | help
  | version
  | usage (e : UsageError)
  deriving DecidableEq, Repr

def Exit.code : Exit → Nat
  | .usage _ => 2
  | _ => 0

def Exit.stdout : Exit → String
  | .help => unlines helpLines
  | .version => versionText
  | .usage _ => ""

def Exit.stderr : Exit → String
  | .usage e => e.text
  | _ => ""

namespace Options

def set (o : Options) : Setting → Given → Options
  | .output, value => { o with output := some value }
  | .indent, value => { o with indent := value }
  | .nginxCommand, value => { o with nginxCommand := value }
  | .dockerImage, value => { o with dockerImage := value }
  | .logFile, value => { o with logFile := some value }

def raise (o : Options) : Flag → Options
  | .stdout => { o with stdout := true }
  | .noInline => { o with noInline := true }
  | .validate => { o with validate := true }
  | .validateOnly => { o with validateOnly := true }
  | .noDocker => { o with noDocker := true }
  | .verbose => { o with verbose := true }
  | .debug => { o with debug := true }
  | .quiet => { o with quiet := true }
  | .noColor => { o with noColor := true }

end Options

structure Action where
  switch : Switch
  value : Given := .nothing
  deriving DecidableEq, Repr

/-- The value that a word is. A separator is dropped, which leaves nothing. -/
def valueOf (word : String) : Given :=
  if word = "--" then .nothing else .text word

/-- What one word asks for: actions, and an option whose value is the next
word. -/
structure Request where
  actions : List Action := []
  pending : Option Switch := none
  deriving DecidableEq, Repr

namespace Request

def ofSwitch (switch : Switch) : Request :=
  if switch.takesValue then { pending := some switch }
    else { actions := [⟨switch, .nothing⟩] }

def assigned (switch : Switch) (value : String) : Except UsageError Request :=
  if switch.takesValue then .ok { actions := [⟨switch, valueOf value⟩] }
  else .error (.valueIgnored switch value)

def after (action : Action) (request : Request) : Request :=
  { request with actions := action :: request.actions }

/-- A short option with characters behind it: its value, or behind a flag, short
options again. -/
def joined (switch : Switch) : List Char → Except UsageError Request
  | [] => .ok (ofSwitch switch)
  | c :: rest =>
    match switch.takesValue, Switch.ofSpelling? (String.ofList ['-', c]) with
    | false, some next => (joined next rest).map (after ⟨switch, .nothing⟩)
    | _, _ => assigned switch (String.ofList (c :: rest))

def ofOption (switch : Switch) : Attached → Except UsageError Request
  | .nothing => .ok (ofSwitch switch)
  | .assigned value => assigned switch value
  | .joined characters => joined switch characters

end Request

/-- The options gathered so far, without regard to the input, and the words that
fit nowhere. -/
structure Gathered where
  options : Options := { input := "" }
  input : Option String := none
  extras : List String := []
  deriving DecidableEq, Repr

namespace Gathered

def act (g : Gathered) (action : Action) : Except Exit Gathered :=
  match action.switch with
  | .help => .error .help
  | .version => .error .version
  | .flag f => .ok { g with options := g.options.raise f }
  | .setting s => .ok { g with options := g.options.set s action.value }

def actAll (g : Gathered) (actions : List Action) : Except Exit Gathered :=
  actions.foldlM act g

def leaveOver (g : Gathered) (words : List String) : Gathered :=
  { g with extras := g.extras ++ words }

/-- Goes through the words. The first argument is the input, and a separator
next to it goes with it. -/
def gather (g : Gathered) : List Word → Except Exit Gathered
  | [] => .ok g
  | .separator :: rest =>
    match g.input, rest with
    | none, .argument input :: rest =>
      gather { g with input := some input } rest
    | _, rest => gather (g.leaveOver ["--"]) rest
  | .argument word :: rest =>
    match g.input, rest with
    | none, .separator :: rest => gather { g with input := some word } rest
    | none, rest => gather { g with input := some word } rest
    | some _, rest => gather (g.leaveOver [word]) rest
  | .unknown word :: rest => gather (g.leaveOver [word]) rest
  | .option switch attached :: rest =>
    match Request.ofOption switch attached with
    | .error e => .error (.usage e)
    | .ok request =>
      match request.pending, rest with
      | none, rest =>
        match g.actAll request.actions with
        | .error e => .error e
        | .ok g => gather g rest
      | some last, .argument value :: rest =>
        match g.actAll (request.actions ++ [⟨last, valueOf value⟩]) with
        | .error e => .error e
        | .ok g => gather g rest
      | some last, _ => .error (.usage (.valueRequired last))

end Gathered

/-- The options that a command line amounts to. -/
def Options.parse (argv : List String) : Except Exit Options :=
  match Word.ofStrings argv with
  | .error e => .error (.usage e)
  | .ok words =>
    match Gathered.gather {} words with
    | .error e => .error e
    | .ok g =>
      match g.input with
      | none => .error (.usage .inputRequired)
      | some input =>
        if g.extras.isEmpty then .ok { g.options with input }
        else .error (.usage (.unrecognized g.extras))

end ServerConf.CommandLine
