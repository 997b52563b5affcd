import ServerConf.Failure
import ServerConf.Log.Record
import ServerConf.Reader.Statements

namespace ServerConf

/-- The tokens before the first end of input, and that token. -/
def Token.splitEnd? : List Token → Option (List Token × Token)
  | [] => none
  | t :: ts =>
    if t.kind = .endOfInput then some ([], t)
    else (splitEnd? ts).map fun (body, last) => (t :: body, last)

/-- A list of tokens is complete when its last one ends the input; what follows
an earlier end is never read. -/
def Token.complete? (tokens : List Token) : Option (List Token × Token) :=
  match tokens.getLast? with
  | some t => if t.kind = .endOfInput then splitEnd? tokens else none
  | none => none

namespace Document

def ofTokens (env : Environment) (filename : String) (tokens : List Token) :
    Except Failure Document :=
  match Token.complete? tokens with
  | none => .error .unendedTokens
  | some (body, last) =>
    match Reader.statements ⟨env, last⟩ [] [] body with
    | .ok children => .ok ⟨children, filename⟩
    | .error stop => .error (.parse stop.error)

def parse (env : Environment) (filename : String) (source : String) :
    Except Failure Document :=
  match Token.ofSource source with
  | .ok tokens => ofTokens env filename tokens
  | .error e => .error (.scan e)

end Document

/-- The variables that a run of tokens refers to: each string right after `%env`
and a parenthesis. -/
def Token.environmentNames : List Token → List String
  | sign :: paren :: name :: rest =>
    let others := environmentNames (paren :: name :: rest)
    if sign.kind = .environment && paren.kind = .openParen && name.kind =
      .string then
      name.value :: others
    else
      others
  | _ => []

/-- How the reference after an `%env` sign was settled, if it was. -/
def Environment.settled? (env : Environment) : List Token → Option Log.Event
  | paren :: name :: next :: rest =>
    let complete := paren.kind = .openParen && name.kind = .string
    match env name.value with
    | some _ =>
      let closes := next.kind = .closeParen ||
        (next.kind = .comma && (rest.take 2).map Token.kind =
          [.string, .closeParen])
      if complete && closes then
        some (.resolvedFromEnvironment name.value) else none
    | none =>
      let closes := next.kind = .comma && (rest.take 2).map Token.kind =
        [.string, .closeParen]
      if complete && closes then some (.resolvedToDefault name.value) else none
  | _ => none

def Environment.settledIn (env : Environment) : List Token → List Log.Event
  | [] => []
  | t :: ts =>
    (if t.kind = .environment then (env.settled? ts).toList else []) ++
      env.settledIn ts

namespace Document

/-- A reading that stops has settled the references among the tokens it has
taken. -/
def tokenEvents (env : Environment) (filename : String) (tokens : List Token) :
    List Log.Event :=
  match Token.complete? tokens with
  | none => []
  | some (body, last) =>
    match Reader.statements ⟨env, last⟩ [] [] body with
    | .ok children => env.settledIn body ++ [.parsed filename children.length]
    | .error stop => env.settledIn (body.take (body.length - stop.rest.length))

def parseEvents (env : Environment) (filename : String) (source : String) :
    List Log.Event :=
  match Token.ofSource source with
  | .ok tokens =>
    .tokenized filename tokens.length :: tokenEvents env filename tokens
  | .error _ => []

end Document

end ServerConf
