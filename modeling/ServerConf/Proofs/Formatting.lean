import Mathlib.Data.List.Infix
import ServerConf.Log.Layout

/-!
What formatters do to a line that they share, and what colours add to its text.
A formatter gives back the line it was given, except that a colouring one fails
on messages between warnings and errors. Without the codes of the colours a
coloured line reads like a plain one.
-/

namespace ServerConf.Log

/-- Messages of the level have no colour: it lies between a warning and an
error. -/
def Level.Uncolored (level : Level) : Prop :=
  Level.warning < level ∧ level < Level.error

instance : DecidablePred Level.Uncolored :=
  fun _ => inferInstanceAs (Decidable (_ ∧ _))

theorem Level.color?_of_uncolored {level : Level}
    (uncolored : level.Uncolored) :
    level.color? = none := by
  rw [color?, if_neg, if_neg, if_neg, if_neg, if_neg]
  all_goals
    rintro rfl
    exact absurd uncolored (by decide)

theorem Line.colorMessage_cases (line : Line) :
    (line.level.Uncolored ∧ line.colorMessage = .error ⟨line.level⟩) ∨
      (¬ line.level.Uncolored ∧ (line.colorMessage = .ok line ∨
        ∃ color ∈ Color.all, line.colorMessage =
          .ok { line with
            message := color ++ line.message ++ Color.reset })) := by
  unfold colorMessage
  by_cases low : line.level < Level.warning
  · exact .inr ⟨fun uncolored =>
      absurd uncolored.1 (Int.not_lt.2 (Int.le_of_lt low)), .inl (if_pos low)⟩
  rw [if_neg low]
  by_cases high : Level.error ≤ line.level
  · refine .inr ⟨fun uncolored => absurd uncolored.2 (Int.not_lt.2 high),
      .inr ⟨Color.red, by decide, ?_⟩⟩
    rw [Int.min_eq_right high]
    rfl
  have below : line.level < Level.error := Int.not_le.1 high
  rw [Int.min_eq_left (Int.le_of_lt below)]
  by_cases same : line.level = Level.warning
  · refine .inr ⟨fun uncolored => absurd same (Int.ne_of_gt uncolored.1),
      .inr ⟨Color.yellow, by decide, ?_⟩⟩
    rw [same]
    rfl
  · have uncolored : line.level.Uncolored :=
      ⟨Int.lt_iff_le_and_ne.2 ⟨Int.not_lt.1 low, Ne.symm same⟩, below⟩
    refine .inl ⟨uncolored, ?_⟩
    rw [Level.color?_of_uncolored uncolored]

namespace Formatter

/-- The formatter colours what it writes. -/
def paints : Formatter → Bool
  | .plain _ => false
  | .colored _ useColors => useColors

theorem format_of_uncolored {f : Formatter} {line : Line}
    (paints : f.paints = true)
    (uncolored : line.level.Uncolored)
    (now : Moment) :
    f.format now line = (.error ⟨line.level⟩, line.colorLabels) := by
  cases f with
  | plain layout => cases paints
  | colored layout useColors =>
      cases paints
      rcases line.colorLabels.colorMessage_cases with ⟨_, failed⟩ | ⟨colored, _⟩
      · simp only [format, failed]
        rfl
      · exact absurd uncolored colored

/-- A formatter makes a text of a line and leaves the line alone, unless it has
to colour a message that there is no colour for. -/
theorem format_undisturbed_iff (f : Formatter) (now : Moment) (line : Line) :
    (∃ text, f.format now line = (.ok text, line)) ↔
      (f.paints = true → ¬ line.level.Uncolored) := by
  constructor
  · rintro ⟨text, formatted⟩ paints uncolored
    rw [format_of_uncolored paints uncolored] at formatted
    cases formatted
  · intro colored
    cases f with
    | plain layout => exact ⟨_, rfl⟩
    | colored layout useColors =>
        cases useColors with
        | false => exact ⟨_, rfl⟩
        | true =>
            rcases line.colorLabels.colorMessage_cases with
              ⟨uncolored, _⟩ | ⟨_, same | ⟨_, _, same⟩⟩
            · exact absurd uncolored (colored rfl)
            all_goals
              rw [format, same]
              exact ⟨_, rfl⟩

/-- What formatters make of one line, each of the line as the one before it
leaves it, and the line in the end. -/
def formatAll (now : Moment) :
    List Formatter → Line → List (Except ColorError String) × Line
  | [], line => ([], line)
  | f :: rest, line =>
    let first := f.format now line
    let others := formatAll now rest first.2
    (first.1 :: others.1, others.2)

/-- Formatters that use one line after the other all make their texts of the
line as it was, and leave it so, exactly if none of them has to colour a message
that there is no colour for. -/
theorem formatAll_undisturbed_iff
    (fs : List Formatter) (now : Moment) (line : Line) :
    (∃ texts, formatAll now fs line = (texts.map .ok, line) ∧
        List.Forall₂ (fun f text => f.format now line = (.ok text, line))
          fs texts) ↔
      ∀ f ∈ fs, f.paints = true → ¬ line.level.Uncolored := by
  simp only [← format_undisturbed_iff _ now line]
  induction fs with
  | nil => simp [formatAll]
  | cons f fs induction =>
      rw [List.forall_mem_cons, ← induction]
      constructor
      · rintro ⟨_, whole, formatted⟩
        cases formatted with | @cons _ text _ texts here behind =>
        refine ⟨⟨text, here⟩, texts, ?_, behind⟩
        rw [formatAll, here, List.map_cons] at whole
        obtain ⟨outcomes, left⟩ := Prod.mk.inj whole
        exact Prod.ext (List.cons.inj outcomes).2 left
      · rintro ⟨⟨text, here⟩, texts, whole, behind⟩
        refine ⟨text :: texts, ?_, .cons here behind⟩
        rw [formatAll, here, whole, List.map_cons]

/-- A message between a warning and an error has no colour. It gets no text from
a colouring formatter, and what that one did to the line before it failed shows
in the text of the next. -/
theorem formatAll_disturbed :
    let line := Record.line ⟨"ncl_gen.main", 35, "slow"⟩
    let layout : Layout := ⟨[.levelName, .logger], ""⟩
    let now : Moment := { year := 2024 }
    formatAll now [.colored layout true, .plain layout] line =
        ([.error ⟨35⟩, .ok "Level 35\x1b[0m\x1b[32mncl_gen.main\x1b[0m"],
          ⟨35, "Level 35\x1b[0m", "\x1b[32mncl_gen.main\x1b[0m", "slow"⟩) ∧
      ¬ ∃ text,
        (Formatter.colored layout true).format now line = (.ok text, line) := by
  intro line layout now
  refine ⟨by decide +kernel, ?_⟩
  rw [format_undisturbed_iff]
  exact fun colored => colored rfl (by decide)

end Formatter

namespace Color

def escape : Char := '\x1b'

def codeAt? (cs : List Char) : Option (List Char) :=
  (all.map String.toList).find? (·.isPrefixOf cs)

/-- The text without the codes in it, after as many characters as belong to the
last code. -/
def stripFrom (skip : Nat) : List Char → List Char
  | [] => []
  | c :: rest =>
    match skip with
    | skip + 1 => stripFrom skip rest
    | 0 =>
      match codeAt? (c :: rest) with
      | some code => stripFrom (code.length - 1) rest
      | none => c :: stripFrom 0 rest

def strip (cs : List Char) : List Char :=
  stripFrom 0 cs

theorem codeAt?_eq_none {c : Char} (other : c ≠ escape) (rest : List Char) :
    codeAt? (c :: rest) = none := by
  have begins : ∀ code ∈ all, code.toList.head? = some escape := by decide
  rw [codeAt?, List.find?_eq_none]
  intro text member isPrefix
  obtain ⟨code, among, rfl⟩ := List.mem_map.1 member
  obtain ⟨tail, whole⟩ := List.head?_eq_some_iff.1 (begins code among)
  rw [whole, List.isPrefixOf_iff_prefix, List.cons_prefix_cons] at isPrefix
  exact other isPrefix.1.symm

def StripsTo (painted plain : String) : Prop :=
  ∀ rest, strip (painted.toList ++ rest) = plain.toList ++ strip rest

theorem StripsTo.strip_eq {painted plain : String}
    (strips : StripsTo painted plain) :
    strip painted.toList = plain.toList := by
  simpa [strip, stripFrom] using strips []

theorem StripsTo.empty : StripsTo "" "" :=
  fun _ => rfl

theorem StripsTo.append {first second third fourth : String}
    (left : StripsTo first second)
    (right : StripsTo third fourth) :
    StripsTo (first ++ third) (second ++ fourth) := by
  intro rest
  rw [String.toList_append, List.append_assoc, left, right,
    String.toList_append, List.append_assoc]

theorem StripsTo.code {code : String} (member : code ∈ all) :
    StripsTo code "" := by
  intro rest
  simp only [all, List.mem_cons, List.not_mem_nil, or_false] at member
  rcases member with rfl | rfl | rfl | rfl | rfl | rfl | rfl | rfl | rfl <;> rfl

theorem StripsTo.around {color painted plain : String}
    (strips : StripsTo color "")
    (inside : StripsTo painted plain) :
    StripsTo (color ++ painted ++ reset) plain := by
  simpa using (strips.append inside).append (.code (by decide))

/-- No code begins in the text. -/
def Free (text : String) : Prop :=
  escape ∉ text.toList

instance : DecidablePred Free :=
  fun _ => inferInstanceAs (Decidable (¬ _))

theorem Free.append {first second : String}
    (left : Free first)
    (right : Free second) :
    Free (first ++ second) := by
  rw [Free, String.toList_append, List.mem_append]
  exact not_or.2 ⟨left, right⟩

theorem Free.stripsTo {text : String} (free : Free text) :
    StripsTo text text := by
  intro rest
  unfold Free at free
  generalize text.toList = cs at free ⊢
  induction cs with
  | nil => rfl
  | cons c cs induction =>
      rw [List.mem_cons, not_or] at free
      rw [List.cons_append, strip, stripFrom, codeAt?_eq_none (Ne.symm free.1)]
      exact congrArg (c :: ·) (induction free.2)

theorem free_toString (n : Int) : Free (toString n) := by
  have digits : ∀ m : Nat, Free m.repr := by
    intro m member
    rw [Nat.toList_repr] at member
    exact absurd (Nat.isDigit_of_mem_toDigits (by decide) (by decide) member)
      (by decide)
  cases n with
  | ofNat m => exact digits m
  | negSucc m =>
      rw [Int.toString_eq_repr, Int.repr]
      exact Free.append (by decide) (digits _)

end Color

open Color (escape StripsTo Free)

theorem Level.stripsTo_color (level : Level) :
    StripsTo (level.color?.getD "") "" := by
  unfold color?
  split_ifs
  · exact .code (by decide)
  · exact .code (by decide)
  · exact .code (by decide)
  · exact .code (by decide)
  · exact StripsTo.append (.code (by decide)) (.code (by decide))
  · exact .empty

theorem stripsTo_stageColor {stage color : String}
    (found : stageColor? stage = some color) :
    StripsTo color "" := by
  unfold stageColor? at found
  split at found <;> cases found <;> exact .code (by decide)

theorem Level.free_label (level : Level) : Free level.label := by
  unfold label
  split_ifs
  case neg => exact Free.append (by decide) (Color.free_toString level)
  all_goals decide

theorem free_padLevelName {name : String} (free : Free name) :
    Free (padLevelName name) := by
  refine free.append ?_
  simp [Free, escape]

structure Line.Free (line : Line) : Prop where
  levelName : Color.Free line.levelName
  logger : Color.Free line.logger
  message : Color.Free line.message

theorem Line.Free.text
    {line : Line}
    (free : line.Free)
    {time : String}
    {label : Label}
    (timed : label = .time → Color.Free time) :
    Color.Free (line.text time label) := by
  cases label with
  | time => exact timed rfl
  | levelName => exact free.levelName
  | logger => exact free.logger
  | message => exact free.message

structure Line.StripsTo (painted plain : Line) : Prop where
  levelName : Color.StripsTo painted.levelName plain.levelName
  logger : Color.StripsTo painted.logger plain.logger
  message : Color.StripsTo painted.message plain.message

theorem Line.StripsTo.text
    {painted plain : Line}
    (strips : painted.StripsTo plain)
    {time : String}
    {label : Label}
    (timed : label = .time → Color.Free time) :
    Color.StripsTo (painted.text time label) (plain.text time label) := by
  cases label with
  | time => exact (timed rfl).stripsTo
  | levelName => exact strips.levelName
  | logger => exact strips.logger
  | message => exact strips.message

/-- The line of a record as it is written where there are no colours. -/
def Line.padded (line : Line) : Line :=
  { line with levelName := padLevelName line.levelName }

theorem Line.Free.padded {line : Line} (free : line.Free) : line.padded.Free :=
  { free with levelName := free_padLevelName free.levelName }

theorem Line.Free.stripsTo_colorLabels
    {line : Line}
    (free : line.Free) :
    line.colorLabels.StripsTo line.padded where
  levelName :=
    .around line.level.stripsTo_color free.padded.levelName.stripsTo
  logger := by
    simp only [colorLabels]
    split
    · rename_i found
      exact .around (stripsTo_stageColor found) free.logger.stripsTo
    · exact free.logger.stripsTo
  message := free.message.stripsTo

theorem Line.StripsTo.colorMessage {painted plain : Line}
    (strips : painted.StripsTo plain)
    (colored : ¬ painted.level.Uncolored) :
    ∃ line, painted.colorMessage = .ok line ∧ line.StripsTo plain := by
  rcases painted.colorMessage_cases with
    ⟨uncolored, _⟩ | ⟨_, same | ⟨color, among, same⟩⟩
  · exact absurd uncolored colored
  · exact ⟨painted, same, strips⟩
  · exact ⟨_, same, strips.levelName, strips.logger,
      .around (.code among) strips.message⟩

theorem escape_not_mem_hexDigits (width n : Nat) :
    escape ∉ Text.hexDigits width n := by
  induction width generalizing n with
  | zero => exact List.not_mem_nil
  | succ width induction =>
      have digits : ∀ digit < 16, escape ≠ Nat.digitChar digit := by decide
      rw [Text.hexDigits, List.mem_append, List.mem_singleton]
      exact not_or.2 ⟨induction _, digits _ (Nat.mod_lt _ (by decide))⟩

theorem escape_not_mem_charCode (c : Char) : escape ∉ Text.charCode c := by
  unfold Text.charCode
  split_ifs
  all_goals
    simp only [List.mem_cons, not_or]
    exact ⟨by decide, by decide, escape_not_mem_hexDigits _ _⟩

theorem escape_not_mem_escapeChar
    {quote c : Char}
    (other : c ≠ escape) :
    escape ∉ Text.escapeChar quote c := by
  have other : '\x1b' ≠ c := Ne.symm other
  unfold Text.escapeChar
  split_ifs
  case neg => exact escape_not_mem_charCode c
  all_goals simp [escape, other]

theorem escape_not_mem_quotedChars
    {cs : List Char}
    (free : escape ∉ cs) :
    escape ∉ Text.quotedChars cs := by
  have quote : escape ≠ Text.quoteFor cs := by
    unfold Text.quoteFor
    split <;> decide
  simp only [Text.quotedChars, List.cons_append, List.mem_cons,
    List.mem_append, List.mem_flatMap, List.not_mem_nil, or_false, not_or]
  refine ⟨quote, ?_, quote⟩
  rintro ⟨c, member, inside⟩
  exact escape_not_mem_escapeChar (fun same => free (same ▸ member)) inside

theorem Conversion.escape_not_mem_apply
    {conversion : Conversion}
    {cs : List Char}
    (free : escape ∉ cs) :
    escape ∉ conversion.apply cs := by
  cases conversion with
  | text => exact free
  | quoted => exact escape_not_mem_quotedChars free
  | ascii =>
      intro member
      obtain ⟨c, among, inside⟩ := List.mem_flatMap.1 member
      split at inside
      · rw [← List.mem_singleton.1 inside] at among
        exact escape_not_mem_quotedChars free among
      · exact escape_not_mem_charCode c inside

theorem Fit.free_apply
    {fit : Fit}
    {s : String}
    (free : Free s) :
    Free (fit.apply s) := by
  have converted : escape ∉ fit.conversion.apply s.toList :=
    Conversion.escape_not_mem_apply free
  have cut : escape ∉ fit.cut (fit.conversion.apply s.toList) := by
    unfold Fit.cut
    split
    · exact converted
    · exact fun member => converted (List.mem_of_mem_take member)
  have blank : escape ≠ ' ' := by decide
  rw [Free, Fit.apply, String.toList_ofList, Fit.pad]
  split <;> simp [cut, blank]

theorem Fit.apply_default (s : String) : ({} : Fit).apply s = s := by
  simp [Fit.apply, Fit.pad, Fit.cut, Conversion.apply]

/-- A field is a bare one, or its labels are the same in both lines, or it shows
both as they are. -/
def Piece.Spares (painted plain : Line) (time : String) : Piece → Prop
  | .literal _ => True
  | .field label fit =>
    fit = {} ∨
      painted.text time label = plain.text time label ∨
      fit.apply (painted.text time label) = painted.text time label ∧
        fit.apply (plain.text time label) = plain.text time label

instance (painted plain : Line) (time : String) :
    DecidablePred (Piece.Spares painted plain time)
  | .literal _ => inferInstanceAs (Decidable True)
  | .field _ _ => inferInstanceAs (Decidable (_ ∨ _ ∨ _ ∧ _))

theorem Piece.stripsTo_fill
    {painted plain : Line}
    (strips : painted.StripsTo plain)
    (free : plain.Free)
    {time : String}
    {piece : Piece}
    (spares : piece.Spares painted plain time)
    (literal : ∀ c, piece = .literal c → c ≠ escape)
    (timed : ∀ fit, piece = .field .time fit → Free time) :
    StripsTo (piece.fill painted time) (piece.fill plain time) := by
  cases piece with
  | literal c =>
      have other := literal c rfl
      exact Free.stripsTo (by simpa [Free, Piece.fill] using Ne.symm other)
  | field label fit =>
      have known : label = .time → Free time := by
        rintro rfl
        exact timed fit rfl
      rcases spares with rfl | same | ⟨shown, plainly⟩
      · simp only [Piece.fill, Fit.apply_default]
        exact strips.text known
      · simp only [Piece.fill, same]
        exact (Fit.free_apply (free.text known)).stripsTo
      · simp only [Piece.fill, shown, plainly]
        exact strips.text known

theorem Layout.stripsTo_fill
    {layout : Layout}
    {painted plain : Line}
    (strips : painted.StripsTo plain)
    (free : plain.Free)
    {now : Moment}
    (spares : ∀ piece ∈ layout.pieces,
      piece.Spares painted plain (now.text layout.dateFormat))
    (literals : ∀ c, .literal c ∈ layout.pieces → c ≠ escape)
    (times : ∀ fit, .field .time fit ∈ layout.pieces →
      Free (now.text layout.dateFormat)) :
    StripsTo (layout.fill painted now) (layout.fill plain now) := by
  obtain ⟨pieces, dateFormat⟩ := layout
  unfold fill
  dsimp only at spares literals times ⊢
  induction pieces with
  | nil => exact .empty
  | cons piece pieces induction =>
      rw [List.map_cons, List.map_cons, String.join_cons, String.join_cons]
      refine .append ?_ (induction ?_ ?_ ?_)
      · refine Piece.stripsTo_fill strips free
          (spares _ List.mem_cons_self) ?_ ?_
        · rintro c rfl
          exact literals c List.mem_cons_self
        · rintro fit rfl
          exact times fit List.mem_cons_self
      · exact fun piece member => spares piece (List.mem_cons_of_mem _ member)
      · exact fun c member => literals c (List.mem_cons_of_mem _ member)
      · exact fun fit member => times fit (List.mem_cons_of_mem _ member)

theorem Piece.eq_percent_of_read?
    {c : Char}
    {cs after : List Char}
    (read : read? cs = some (.literal c, after)) :
    c = '%' := by
  unfold read? at read
  split at read
  · cases read
    rfl
  · simp [Option.bind_eq_some_iff] at read
  · cases read

theorem Piece.mem_of_literal_mem_ofCharsFrom?
    {skip : Nat}
    {c : Char}
    {cs : List Char}
    {pieces : List Piece}
    (read : ofCharsFrom? skip cs = some pieces)
    (member : .literal c ∈ pieces) :
    c ∈ cs := by
  fun_induction ofCharsFrom? skip cs generalizing pieces with
  | case1 =>
      cases read
      cases member
  | case2 _ d rest induction =>
      exact List.mem_cons_of_mem _ (induction read member)
  | case3 rest induction =>
      obtain ⟨⟨piece, after⟩, began, read⟩ := Option.bind_eq_some_iff.1 read
      obtain ⟨others, behind, rfl⟩ := Option.map_eq_some_iff.1 read
      rcases List.mem_cons.1 member with rfl | inside
      · rw [eq_percent_of_read? began]
        exact List.mem_cons_self
      · exact List.mem_cons_of_mem _ (induction after behind inside)
  | case4 d rest _ induction =>
      obtain ⟨others, behind, rfl⟩ := Option.map_eq_some_iff.1 read
      rcases List.mem_cons.1 member with same | inside
      · cases same
        exact List.mem_cons_self
      · exact List.mem_cons_of_mem _ (induction behind inside)

theorem Layout.literal_ne_escape
    {format dateFormat : String}
    {layout : Layout}
    (described : ofFormat? format dateFormat = some layout)
    (free : Free format)
    (c : Char)
    (member : .literal c ∈ layout.pieces) :
    c ≠ escape := by
  rintro rfl
  unfold ofFormat? at described
  split_ifs at described
  · cases described
    cases List.mem_singleton.1 member
  · obtain ⟨pieces, read, rfl⟩ := Option.map_eq_some_iff.1 described
    exact free (Piece.mem_of_literal_mem_ofCharsFrom? read member)

/-- A record is written alike with and without colours, once the codes of the
colours are out, if no field pads, cuts or converts a label that is coloured. -/
theorem Formatter.strip_colored
    {format dateFormat : String}
    {layout : Layout}
    {record : Record}
    (now : Moment)
    (described : Layout.ofFormat? format dateFormat = some layout)
    (times : ∀ fit, .field .time fit ∈ layout.pieces →
      Free (now.text layout.dateFormat))
    (colored : ¬ record.level.Uncolored)
    (spares : ∀ painted, record.line.colorLabels.colorMessage = .ok painted →
      ∀ piece ∈ layout.pieces,
        piece.Spares painted record.line.padded (now.text layout.dateFormat))
    (freeFormat : Free format)
    (freeLogger : Free record.logger)
    (freeMessage : Free record.message) :
    ∃ painted plain,
      (Formatter.colored layout true).format now record.line =
        (.ok painted, record.line) ∧
      (Formatter.plain layout).format now record.line =
        (.ok plain, record.line) ∧
      Color.strip painted.toList = plain.toList := by
  have free : record.line.Free :=
    ⟨record.level.free_label, freeLogger, freeMessage⟩
  obtain ⟨painted, paints, strips⟩ :=
    free.stripsTo_colorLabels.colorMessage colored
  refine ⟨layout.fill painted now, layout.fill record.line.padded now,
    ?_, rfl, ?_⟩
  · rw [Formatter.format, paints]
  · have literals := Layout.literal_ne_escape described freeFormat
    exact (Layout.stripsTo_fill strips free.padded (spares painted paints)
      literals times).strip_eq

/-- A format with fields of both kinds and a doubled percent sign, for a level
with two codes and a logger with a colour of its own. -/
theorem Formatter.strip_colored_critical :
    let record : Record := ⟨"ncl_gen.language.lexer", 50, "not [31m"⟩
    let format :=
      "%(levelname)-8s|%%(name)s|%(name).40s%(levelname)s: %(message)s"
    let now : Moment := { year := 2024 }
    ∃ layout painted,
      Layout.ofFormat? format "" = some layout ∧
      Free record.message ∧
      (Formatter.colored layout true).format now record.line =
        (.ok painted, record.line) ∧
      Color.strip painted.toList =
        ("CRITICAL|%(name)s|ncl_gen.language.lexer" ++
          "CRITICAL: not [31m").toList := by
  intro record format now
  let layout : Layout :=
    ⟨[.field .levelName ⟨.text, true, 8, none⟩] ++
      "|%(name)s|".toList.map .literal ++
      [.field .logger ⟨.text, false, 0, some 40⟩, .levelName] ++
      ": ".toList.map .literal ++ [.message], ""⟩
  have described : Layout.ofFormat? format "" = some layout := by decide +kernel
  have untimed : ∀ fit, .field .time fit ∉ layout.pieces := by
    simp [layout]
  have spares : ∀ painted,
      record.line.colorLabels.colorMessage = .ok painted →
      ∀ piece ∈ layout.pieces, piece.Spares painted record.line.padded
        (now.text layout.dateFormat) := by
    intro painted paints
    cases paints
    decide +kernel
  have written : (Formatter.plain layout).format now record.line =
      (.ok "CRITICAL|%(name)s|ncl_gen.language.lexerCRITICAL: not [31m",
        record.line) := by
    decide +kernel
  have free : Free record.message := by decide
  obtain ⟨painted, plain, colored, plainly, same⟩ :=
    strip_colored now described (fun fit timed => absurd timed (untimed fit))
      (by decide) spares (by decide) (by decide) free
  rw [written] at plainly
  cases plainly
  exact ⟨layout, painted, described, free, colored, same⟩

/-- A level name that is wide enough with its codes but not without them is
padded in the plain text only. -/
theorem Formatter.strip_colored_padded :
    let record : Record := ⟨"a", 20, "hi"⟩
    let format := "%(levelname)-10s|%(message)s"
    let now : Moment := { year := 2024 }
    ∃ layout painted,
      Layout.ofFormat? format "" = some layout ∧
      (Formatter.colored layout true).format now record.line =
        (.ok painted, record.line) ∧
      Color.strip painted.toList = "INFO    |hi".toList ∧
      (Formatter.plain layout).format now record.line =
        (.ok "INFO      |hi", record.line) := by
  refine ⟨⟨[.field .levelName ⟨.text, true, 10, none⟩, .literal '|',
    .message], ""⟩, "\x1b[32mINFO    \x1b[0m|hi", ?_⟩
  decide +kernel

end ServerConf.Log
