import ServerConf.Main
import ServerConf.Proofs.Acceptance
import ServerConf.Proofs.Alignment
import ServerConf.Proofs.CleanSpelling
import ServerConf.Proofs.ConditionReading
import ServerConf.Proofs.Containment
import ServerConf.Proofs.Expansion
import ServerConf.Proofs.Grammar
import ServerConf.Proofs.Idempotence
import ServerConf.Proofs.ItemReading
import ServerConf.Proofs.LexemeContext
import ServerConf.Proofs.LineAlignment
import ServerConf.Proofs.LineSpelling
import ServerConf.Proofs.LineTexts
import ServerConf.Proofs.LineTokens
import ServerConf.Proofs.ReadBack
import ServerConf.Proofs.RenderedText
import ServerConf.Proofs.Rerendering
import ServerConf.Proofs.RoundTrip
import ServerConf.Proofs.Runs
import ServerConf.Proofs.SourceLayout
import ServerConf.Proofs.SourceSpelling
import ServerConf.Proofs.Spelling
import ServerConf.Proofs.Stability
import ServerConf.Proofs.StatementReading
import ServerConf.Proofs.StatementTrees
import ServerConf.Proofs.TermSpelling
import ServerConf.Proofs.TokenOrder
import ServerConf.Proofs.WordReading
import ServerConf.Proofs.Moments
import ServerConf.Proofs.RunInvariants
import ServerConf.Proofs.TemplateGraph
import ServerConf.Proofs.TemplateFailures
import ServerConf.Proofs.Substitution
import ServerConf.Proofs.ParsedTrees
import ServerConf.Proofs.Loading
import ServerConf.Proofs.Termination
import ServerConf.Proofs.ImportGraph
import ServerConf.Proofs.Reporting
import ServerConf.Proofs.ImportCache
import ServerConf.Proofs.RendererReuse
import ServerConf.Proofs.Addresses
import ServerConf.Proofs.Congruence
import ServerConf.Proofs.Origin
import ServerConf.Proofs.Lockstep
import ServerConf.Proofs.StatementLockstep
import ServerConf.Proofs.NamedVariables
import ServerConf.Proofs.Relayout
import ServerConf.Proofs.Unambiguous
import ServerConf.Proofs.Shapes
import ServerConf.Proofs.Concatenation
import ServerConf.Proofs.TapeReader
import ServerConf.Proofs.TapeReading
import ServerConf.Proofs.TapeSafety
import ServerConf.Proofs.Changes
import ServerConf.Proofs.CommandLineRuns
import ServerConf.Proofs.LocationShorthand
import ServerConf.Proofs.SourceOrder
import ServerConf.Proofs.ImportsInPlace
import ServerConf.Proofs.Warnings
import ServerConf.Proofs.CursorRuns
import ServerConf.Proofs.Touching
import ServerConf.Proofs.UnquotedWords
import ServerConf.Proofs.WrittenLines
import ServerConf.Proofs.Indentation
import ServerConf.Proofs.Verdicts
import ServerConf.Proofs.Formatting
import ServerConf.Proofs.LocationMatch
import ServerConf.Proofs.QuotedValues
import ServerConf.Proofs.LexicalPaths
import ServerConf.Proofs.ImportKeys
