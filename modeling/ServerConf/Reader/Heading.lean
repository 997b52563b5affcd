import ServerConf.Reader.Arguments
import ServerConf.Reader.Condition
import ServerConf.Statement

/-!
Items: a statement that fits on one line, or the heading of one that has
statements of its own in braces. Every item takes at least one token.
-/

namespace ServerConf

inductive Heading where
  | block (name : String) (args : List String) (position : Position)
  | condition (args : List String) (position : Position)
  | location (modifier : Modifier) (paths : List String) (position : Position)
  | template (name : String) (opening : Position) (position : Position)
  deriving DecidableEq, Repr

namespace Heading

def enclosure : Heading → Enclosure
  | .block name _ _ => .block name
  | .condition _ _ => .condition
  | .location _ _ _ => .location
  | .template name _ _ => .template name

def around (children : List Statement) : Heading → Statement
  | .block name args position => .block name args children position
  | .condition args position => .block "if" args children position
  | .location modifier paths position =>
    .location modifier paths children position
  | .template name opening position =>
    .definition name children opening position

end Heading

inductive Item where
  | leaf (s : Statement)
  | heading (h : Heading)

namespace Reader

def opened (r : Reader) (h : Heading) (ts : List Token) :
    Except Stop (Item × List Token) :=
  (r.expect .openBrace (.noOpeningBrace h.enclosure) ts).map fun (_, after) =>
    (.heading h, after)

def template (r : Reader) (sign : Token) :
    List Token → Except Stop (Item × List Token)
  | [] => r.stop (.noTemplateBody sign.value) []
  | t :: ts =>
    if t.kind = .openBrace then
      .ok (.heading (.template sign.value t.position sign.position), ts)
    else
      r.stop (.noTemplateBody sign.value) (t :: ts)

def inline (r : Reader) (sign : Token) (ts : List Token) :
    Except Stop (Item × List Token) := do
  let (_, ts) ← r.expect .openParen .inlineParen ts
  let (name, ts) ← r.expect .variable .inlineVariable ts
  let (_, ts) ← r.expect .closeParen .inlineClose ts
  let (_, ts) ← r.expect .semicolon .inlineSemicolon ts
  return (.leaf (.reference name.value sign.position), ts)

def importFile (r : Reader) (sign : Token) (ts : List Token) :
    Except Stop (Item × List Token) := do
  let (_, ts) ← r.expect .openParen .importParen ts
  let (path, ts) ← r.expect .string .importString ts
  let (_, ts) ← r.expect .closeParen .importClose ts
  let (_, ts) ← r.expect .semicolon .importSemicolon ts
  if path.value.isEmpty then .error ⟨⟨.importEmpty, path⟩, ts⟩
  else return (.leaf (.importFile path.value sign.position), ts)

def locationList (r : Reader) (sign : Token) (ts : List Token) :
    Except Stop (Item × List Token) := do
  let (_, ts) ← r.expect .openBracket .noPathList ts
  let ((paths, close), ts) ← r.pathList ts
  if paths.isEmpty then .error ⟨⟨.emptyPathList, close⟩, ts⟩
  else r.opened (.location .none paths sign.position) ts

def modifier : List Token → Modifier × List Token
  | [] => (.none, [])
  | t :: ts =>
    if t.kind = .modifier then (Modifier.ofText t.value, ts)
    else if t.kind = .equals then (.exact, ts)
    else (.none, t :: ts)

def path (r : Reader) : List Token → Except Stop (String × List Token)
  | [] => r.stop .noPath []
  | t :: ts =>
    if t.kind = .string then .ok (t.value, ts)
    else if t.kind.isWord then r.word t ts
    else r.stop .noPath (t :: ts)

def locationSingle (r : Reader) (sign : Token) (ts : List Token) :
    Except Stop (Item × List Token) := do
  let (path, rest) ← r.path (modifier ts).2
  r.opened (.location (modifier ts).1 [path] sign.position) rest

def location (r : Reader) (sign : Token) :
    List Token → Except Stop (Item × List Token)
  | [] => r.locationSingle sign []
  | t :: ts =>
    if t.kind = .inWord then r.locationList sign ts
      else r.locationSingle sign (t :: ts)

def ifBlock (r : Reader) (sign : Token) (ts : List Token) :
    Except Stop (Item × List Token) := do
  let (args, ts) ← r.condition ts
  r.opened (.condition args sign.position) ts

/-- A block or a directive whose name begins with `t`: a block if a brace is
ahead. -/
def named (r : Reader) (t : Token) (ts : List Token) :
    Except Stop (Item × List Token) := do
  let (name, rest) ← r.name t ts
  let (args, rest) ← r.arguments name t.position.line (braceAhead ts) rest
  if braceAhead ts then
    r.opened (.block name args t.position) rest
  else
    let (_, rest) ← r.expect .semicolon (.openDirective name) rest
    return (.leaf (.directive name args t.position), rest)

/-- A variable begins a template when an equals sign follows; otherwise it is a
name. -/
def variableItem (r : Reader) (t : Token) :
    List Token → Except Stop (Item × List Token)
  | [] => r.named t []
  | next :: ts =>
    if next.kind = .equals then r.template t ts else r.named t (next :: ts)

def item (r : Reader) (t : Token) (ts : List Token) :
    Except Stop (Item × List Token) :=
  match t.kind with
  | .variable => r.variableItem t ts
  | .inline => r.inline t ts
  | .location => r.location t ts
  | .importSign => r.importFile t ts
  | kind =>
    if kind = .identifier && t.value = "if" then r.ifBlock t ts
    else if kind.isName then r.named t ts
    else r.stop (.unexpectedToken (if t.value.isEmpty then kind.label
      else t.value)) (t :: ts)

theorem opened_length
    {r : Reader} {h : Heading} {ts rest : List Token} {i : Item}
    (read : r.opened h ts = .ok (i, rest)) :
    rest.length ≤ ts.length := by
  obtain ⟨⟨brace, after⟩, found, same⟩ := map_ok read
  cases same
  exact Nat.le_of_lt (expect_length found)

theorem template_length
    {r : Reader} {sign : Token} {ts rest : List Token} {i : Item}
    (read : r.template sign ts = .ok (i, rest)) :
    rest.length ≤ ts.length := by
  cases ts with
  | nil => cases read
  | cons t tail =>
    simp only [template] at read
    split at read
    · cases read
      exact Nat.le_succ _
    · cases read

theorem inline_length
    {r : Reader} {sign : Token} {ts rest : List Token} {i : Item}
    (read : r.inline sign ts = .ok (i, rest)) :
    rest.length ≤ ts.length := by
  obtain ⟨⟨paren, afterParen⟩, opens, read⟩ := bind_ok read
  obtain ⟨⟨name, afterName⟩, names, read⟩ := bind_ok read
  obtain ⟨⟨close, afterClose⟩, closes, read⟩ := bind_ok read
  obtain ⟨⟨semicolon, after⟩, ends, read⟩ := bind_ok read
  have := expect_length opens
  have := expect_length names
  have := expect_length closes
  have := expect_length ends
  cases read
  omega

theorem importFile_length
    {r : Reader} {sign : Token} {ts rest : List Token} {i : Item}
    (read : r.importFile sign ts = .ok (i, rest)) :
    rest.length ≤ ts.length := by
  obtain ⟨⟨paren, afterParen⟩, opens, read⟩ := bind_ok read
  obtain ⟨⟨path, afterPath⟩, names, read⟩ := bind_ok read
  obtain ⟨⟨close, afterClose⟩, closes, read⟩ := bind_ok read
  obtain ⟨⟨semicolon, after⟩, ends, read⟩ := bind_ok read
  have := expect_length opens
  have := expect_length names
  have := expect_length closes
  have := expect_length ends
  dsimp only at read
  split at read
  · cases read
  · cases read
    omega

theorem modifier_length (ts : List Token) :
    (modifier ts).2.length ≤ ts.length := by
  cases ts with
  | nil => exact Nat.le_refl _
  | cons t tail =>
    simp only [modifier]
    split
    · exact Nat.le_succ _
    · split
      · exact Nat.le_succ _
      · exact Nat.le_refl _

theorem path_length {r : Reader} {ts rest : List Token} {text : String}
    (read : r.path ts = .ok (text, rest)) :
    rest.length ≤ ts.length := by
  cases ts with
  | nil => cases read
  | cons t tail =>
    simp only [path] at read
    split at read
    · cases read
      exact Nat.le_succ _
    · split at read
      · exact Nat.le_succ_of_le (word_length read)
      · cases read

theorem locationList_length
    {r : Reader} {sign : Token} {ts rest : List Token} {i : Item}
    (read : r.locationList sign ts = .ok (i, rest)) :
    rest.length ≤ ts.length := by
  obtain ⟨⟨bracket, afterBracket⟩, opens, read⟩ := bind_ok read
  obtain ⟨⟨⟨paths, close⟩, afterPaths⟩, listed, read⟩ := bind_ok read
  dsimp only at read
  split at read
  · cases read
  · have := expect_length opens
    have := pathList_length listed
    have := opened_length read
    omega

theorem locationSingle_length
    {r : Reader} {sign : Token} {ts rest : List Token} {i : Item}
    (read : r.locationSingle sign ts = .ok (i, rest)) :
    rest.length ≤ ts.length := by
  obtain ⟨⟨path, afterPath⟩, found, read⟩ := bind_ok read
  have := modifier_length ts
  have := path_length found
  have := opened_length read
  omega

theorem location_length
    {r : Reader} {sign : Token} {ts rest : List Token} {i : Item}
    (read : r.location sign ts = .ok (i, rest)) :
    rest.length ≤ ts.length := by
  cases ts with
  | nil => exact locationSingle_length read
  | cons t tail =>
    simp only [location] at read
    split at read
    · exact Nat.le_succ_of_le (locationList_length read)
    · exact locationSingle_length read

theorem ifBlock_length
    {r : Reader} {sign : Token} {ts rest : List Token} {i : Item}
    (read : r.ifBlock sign ts = .ok (i, rest)) :
    rest.length ≤ ts.length := by
  obtain ⟨⟨args, afterCondition⟩, found, read⟩ := bind_ok read
  exact Nat.le_trans (opened_length read) (condition_length found)

theorem named_length {r : Reader} {t : Token} {ts rest : List Token} {i : Item}
    (read : r.named t ts = .ok (i, rest)) :
    rest.length ≤ ts.length := by
  obtain ⟨⟨name, afterName⟩, names, read⟩ := bind_ok read
  obtain ⟨⟨args, afterArgs⟩, arguments, read⟩ := bind_ok read
  have := name_length names
  have := arguments_length arguments
  dsimp only at read
  split at read
  · have := opened_length read
    omega
  · obtain ⟨⟨semicolon, after⟩, ends, read⟩ := bind_ok read
    have := expect_length ends
    cases read
    dsimp only
    omega

theorem variableItem_length
    {r : Reader} {t : Token} {ts rest : List Token} {i : Item}
    (read : r.variableItem t ts = .ok (i, rest)) :
    rest.length ≤ ts.length := by
  cases ts with
  | nil => exact named_length read
  | cons next tail =>
    simp only [variableItem] at read
    split at read
    · exact Nat.le_succ_of_le (template_length read)
    · exact named_length read

theorem item_length {r : Reader} {t : Token} {ts rest : List Token} {i : Item}
    (read : r.item t ts = .ok (i, rest)) :
    rest.length ≤ ts.length := by
  unfold item at read
  split at read
  · exact variableItem_length read
  · exact inline_length read
  · exact location_length read
  · exact importFile_length read
  · split at read
    · exact ifBlock_length read
    · split at read
      · exact named_length read
      · cases read

end Reader

end ServerConf
