import ServerConf.Compiler
import ServerConf.Proofs.Acceptance
import ServerConf.Proofs.Runs
import ServerConf.Proofs.StatementLockstep

/-!
Which variables matter. Nothing in the environment makes a difference to a
compilation but the variables that the sources name.
-/

namespace ServerConf

theorem Token.environmentNames_append (ts us : List Token) :
    environmentNames ts ⊆ environmentNames (ts ++ us) := by
  induction ts with
  | nil => exact List.nil_subset _
  | cons t ts induction =>
      intro name member
      rw [environmentNames_cons, List.mem_append, Option.mem_toList] at member
      rw [List.cons_append, environmentNames_cons, List.mem_append,
        Option.mem_toList]
      rcases member with asked | later
      · left
        match ts, asked with
        | _ :: _ :: _, asked => exact asked
      · exact .inr (induction later)

namespace Environment

/-- The environments give the same value, or none, to every variable that the
source names. -/
def AgreeOn (left right : Environment) (source : String) : Prop :=
  ∀ tokens, Token.ofSource source = .ok tokens →
    ∀ name ∈ Token.environmentNames tokens, left name = right name

variable {left right : Environment}

theorem settled?_congr {sign : Token}
    (isSign : sign.kind = .environment)
    {ts : List Token}
    (agree : ∀ name ∈ Token.asked? (sign :: ts), left name = right name) :
    left.settled? ts = right.settled? ts := by
  match ts with
  | [] | [_] | [_, _] => rfl
  | paren :: name :: next :: rest =>
      by_cases complete :
        (paren.kind = .openParen && name.kind = .string) = true
      · have agreed : left name.value = right name.value := by
          apply agree
          simpa [Token.asked?, isSign] using complete
        rw [settled?, settled?, agreed]
      · rw [settled?, settled?]
        simp only [complete, Bool.false_and]
        cases left name.value <;> cases right name.value <;> rfl

theorem settledIn_congr {ts : List Token}
    (agree : ∀ name ∈ Token.environmentNames ts, left name = right name) :
    left.settledIn ts = right.settledIn ts := by
  induction ts with
  | nil => rfl
  | cons t ts induction =>
      rw [Token.environmentNames_cons] at agree
      have later :=
        induction fun name member => agree name (List.mem_append_right _ member)
      rw [settledIn, settledIn, later]
      congr 1
      split
      · rename_i isSign
        rw [settled?_congr isSign]
        intro name asked
        exact agree name (List.mem_append_left _ (Option.mem_toList.2 asked))
      · rfl

end Environment

namespace Document

variable {left right : Environment} {source : String}

theorem statements_agree {body : List Token} (last : Token)
    (agree : ∀ name ∈ Token.environmentNames body, left name = right name) :
    Reader.Alongside .none Eq (Reader.statements ⟨left, last⟩ [] [] body)
      (Reader.statements ⟨right, last⟩ [] [] body) := by
  have ends : Reader.InStep .none ⟨left, last⟩ ⟨right, last⟩ [] [] := .nil rfl
  have inStep := ends.prepend (fun _ => rfl) (by rwa [List.append_nil])
    (fun _ _ _ absent => by cases absent)
  rw [List.append_nil] at inStep
  have nothing : Reader.SameStatements .none [] [] := rfl
  apply (Reader.statements_alongside inStep .nil nothing).mono
  intro ss tt same
  rwa [Reader.SameStatements, Displacement.none, placeAll_id,
    placeAll_id] at same

theorem parse_congr (agree : left.AgreeOn right source) (filename : String) :
    parse left filename source = parse right filename source ∧
      parseEvents left filename source = parseEvents right filename source := by
  rw [parse, parse, parseEvents, parseEvents]
  cases scanned : Token.ofSource source with
  | error e => exact ⟨rfl, rfl⟩
  | ok tokens =>
      obtain ⟨last, complete⟩ := Token.complete?_of_ofSource scanned
      have within : ∀ part, part <+: tokens.dropLast →
          ∀ name ∈ Token.environmentNames part, left name = right name := by
        intro part before name member
        obtain ⟨rest, whole⟩ := before.trans (List.dropLast_prefix tokens)
        apply agree tokens scanned name
        rw [← whole]
        exact Token.environmentNames_append part rest member
      have agreed := statements_agree last (within _ (List.prefix_refl _))
      dsimp only
      rw [ofTokens, ofTokens, tokenEvents, tokenEvents, complete]
      dsimp only
      generalize Reader.statements ⟨left, last⟩ []
        [] tokens.dropLast = first at agreed
      generalize Reader.statements ⟨right, last⟩ []
        [] tokens.dropLast = second at agreed
      cases agreed with
      | ok same =>
          cases same
          exact ⟨rfl,
            by rw [Environment.settledIn_congr (within _ (List.prefix_refl _))]⟩
      | @error e f same rest =>
          have found : e.error = f.error := same
          dsimp only
          rw [found, rest,
            Environment.settledIn_congr (within _ (List.take_prefix _ _))]
          exact ⟨rfl, rfl⟩

end Document

namespace FileStore

variable {s : FileStore}

theorem mem_entries_of_found
    {bytes : ByteArray} {parts : List String} {found : Address} :
    ∀ {directory},
      s.walk (s.reachIn []) directory parts = .ok (found, .file bytes) →
      (found, .file bytes) ∈ s.entries := by
  induction parts with
  | nil =>
      intro directory walked
      cases walked
  | cons part rest induction =>
      intro directory walked
      rw [walk] at walked
      split at walked
      · exact induction walked
      · split at walked
        · cases walked
        · dsimp only [reachIn, Option.getD_none] at walked
          split at walked
          · cases walked
          · exact induction walked
          · rename_i stands
            split at walked
            · cases walked
              obtain ⟨rfl, here⟩ := eq_of_entryAt stands
              exact mem_entries_of_get? here
            · cases walked

theorem exists_of_readText {p : Path} {source : String}
    (read : s.readText p = .ok source) :
    ∃ a bytes, (a, bytes) ∈ s.files ∧ decodeText bytes = .ok source := by
  rw [readText, FileStore.read] at read
  split at read
  · cases read
  · split at read
    · rename_i found bytes walked
      rw [lookup] at walked
      split at walked
      · cases walked
      · refine ⟨found, bytes, ?_, read⟩
        exact List.mem_filterMap.2 ⟨_, mem_entries_of_found walked, rfl⟩
    · cases read
    · cases read

end FileStore

namespace Rendering

variable {α β : Type}

theorem bind_congr {x : Rendering α} {f g : α → Rendering β}
    (alike : ∀ a p q, x.run.run p = (.ok a, q) → f a = g a) :
    (x >>= f) = (x >>= g) := by
  funext p
  change (x >>= f).run.run p = (x >>= g).run.run p
  rcases ran : x.run.run p with ⟨failure | a, q⟩
  · rw [run_bind_of_error ran, run_bind_of_error ran]
  · rw [run_bind_of_ok ran, run_bind_of_ok ran, alike a p q ran]

end Rendering

namespace Site

/-- The files as a rendering may find them, with or without what was reported in
a log among them. -/
def MayFind (site : Site) (files : FileStore) : Prop :=
  files = site.store ∨
    ∃ journal ∈ site.journal, ∃ events, files = journal.record events site.store

variable {site : Site} {env : Environment}

theorem mayFind_of_filesAt {a : Address} {files : FileStore} {p q : Progress}
    (ran : (site.filesAt a).run.run p = (.ok files, q)) :
    site.MayFind files := by
  rw [filesAt] at ran
  cases kept : site.journal with
  | none =>
      rw [kept] at ran
      cases ran
      exact .inl rfl
  | some journal =>
      rw [kept] at ran
      dsimp only at ran
      split at ran
      · cases ran
        exact .inr ⟨journal, kept, _, rfl⟩
      · cases ran
        exact .inl rfl

def under (site : Site) (env : Environment) : Site :=
  { site with env }

def FilesAgree (site : Site) (env : Environment) : Prop :=
  ∀ files, site.MayFind files → ∀ a bytes source, (a, bytes) ∈ files.files →
    FileStore.decodeText bytes = .ok source → site.env.AgreeOn env source

theorem readDocument_under (agree : site.FilesAgree env) (a : Address) :
    (site.under env).readDocument a = site.readDocument a := by
  rw [readDocument, readDocument]
  apply Rendering.bind_congr
  intro files p q found
  split
  · rfl
  · apply Rendering.bind_congr
    intro _ _ _ _
    apply Rendering.bind_congr
    intro files p q found
    apply Rendering.bind_congr
    intro source p q read
    rw [Rendering.ofExcept_run] at read
    obtain ⟨b, bytes, member, decoded⟩ :=
      FileStore.exists_of_readText (Prod.mk.inj read).1
    obtain ⟨parsed, events⟩ :=
      Document.parse_congr
        (agree files (mayFind_of_filesAt found) b bytes source member decoded)
        a.text
    rw [under, ← parsed, ← events]
  · rfl

theorem load_under (agree : site.FilesAgree env) (a : Address) :
    (site.under env).load a = site.load a := by
  rw [load, load, readDocument_under agree]

theorem linesWithin_under (agree : site.FilesAgree env) (levels : Nat) :
    ∀ scope depth ss,
      (site.under env).linesWithin levels scope depth ss =
        site.linesWithin levels scope depth ss := by
  induction levels with
  | zero =>
      intro scope depth ss
      rfl
  | succ levels induction =>
      intro scope depth ss
      rw [linesWithin, linesWithin]
      simp only [induction, load_under agree]
      rfl

theorem render_under
    (agree : site.FilesAgree env)
    (document : Document) (origin : Option Path) :
    (site.under env).render document origin = site.render document origin := by
  have started :
      (site.under env).startScope origin = site.startScope origin := rfl
  have levels : (site.under env).levels document = site.levels document := rfl
  rw [render, render, started]
  simp only [renderIn, linesWithin_under agree, levels]

end Site

namespace Compiler

/-- The files as a compilation may find them: as they were, or with what a
journal has recorded. -/
def MayFind (c : Compiler) (store files : FileStore) : Prop :=
  files = store ∨
    ∃ journal ∈ c.journal, ∃ events, files = journal.record events store

theorem mayFind_of_site
    {c : Compiler} {store files : FileStore} {base : Option Path}
    {events : List Log.Event}
    (found : (c.site store base events).MayFind files) :
    c.MayFind store files := by
  rcases found with same | ⟨journal, kept, more, recorded⟩
  · exact .inl same
  · obtain ⟨own, present, rfl⟩ := Option.map_eq_some_iff.1 kept
    exact .inr ⟨own, present, events ++ more, recorded⟩

/-- The compiler with another environment. -/
def under (c : Compiler) (env : Environment) : Compiler :=
  { c with env }

/-- An environment that agrees on the variables named in the source and in the
files makes no difference. -/
theorem compileText_under
    {c : Compiler} {env : Environment} {store : FileStore} {source : String}
    (own : c.env.AgreeOn env source)
    (others : ∀ files, c.MayFind store files →
      ∀ a bytes text, (a, bytes) ∈ files.files →
      FileStore.decodeText bytes = .ok text → c.env.AgreeOn env text)
    (filename : String) (base : Option Path) :
    let compiled := c.compileText store source filename base
    (c.under env).compileText store source filename base =
      { compiled with compiler := compiled.compiler.under env } := by
  intro compiled
  obtain ⟨parsed, events⟩ := Document.parse_congr own filename
  have agree : (c.site store base
      (Document.parseEvents c.env filename source)).FilesAgree env := by
    intro files found
    exact others files (mayFind_of_site found)
  have site : (c.under env).site store base
      (Document.parseEvents c.env filename source) = (c.site store base
      (Document.parseEvents c.env filename source)).under env := rfl
  have own : (c.under env).env = env := rfl
  simp only [compiled, compileText, compile]
  rw [own, ← parsed, ← events, site]
  cases Document.parse c.env filename source with
  | error failure => rfl
  | ok document =>
      dsimp only
      rw [Site.render_under agree]
      cases (Site.render _ document none).result with
      | error failure => rfl
      | ok text => rfl

/-- A variable that is named nowhere but in a string, and one that neither
environment has. -/
theorem compileText_under_unnamed :
    let c : Compiler := { env := .ofList [("A", "1"), ("B", "2")] }
    let store : FileStore := ⟨⟨["w"]⟩, [(⟨["w"]⟩, .directory),
      (⟨["w", "f"]⟩, .file "e %env('C', 'B') '%env(B)';".toUTF8)]⟩
    let source := "d %env('A'); %import('f');"
    let text := "d 1;\ne B \"%env(B)\";"
    (c.compileText store source "<string>" none).result = .ok text ∧
      ((c.under (.ofList [("A", "1")])).compileText store source "<string>"
        none).result =
        .ok text := by
  intro c store source text
  have compiled :
      (c.compileText store source "<string>" none).result = .ok text := by
    decide +kernel
  have own : c.env.AgreeOn (.ofList [("A", "1")]) source := by
    have names :
        (Token.ofSource source).map Token.environmentNames = .ok ["A"] := by
      decide +kernel
    intro tokens scanned name member
    rw [scanned] at names
    rw [Except.ok.inj names, List.mem_singleton] at member
    rw [member]
    decide
  have others : ∀ files, c.MayFind store files → ∀ a bytes text,
      (a, bytes) ∈ files.files → FileStore.decodeText bytes = .ok text →
      c.env.AgreeOn (.ofList [("A", "1")]) text := by
    intro files found a bytes read member decoded tokens scanned name named
    have names :
        (FileStore.decodeText "e %env('C', 'B') '%env(B)';".toUTF8).toOption.map
        (fun source => (Token.ofSource source).map Token.environmentNames) =
        some (.ok ["C"]) := by
      decide +kernel
    rcases found with rfl | ⟨_, absent, _⟩
    · cases List.mem_singleton.1 member
      rw [decoded] at names
      have inFile := Option.some.inj names
      dsimp only at inFile
      rw [scanned] at inFile
      rw [Except.ok.inj inFile, List.mem_singleton] at named
      rw [named]
      decide
    · cases absent
  refine ⟨compiled, ?_⟩
  rw [compileText_under own others]
  exact compiled

end Compiler

end ServerConf
