import Timbre.Number.Scaled
import Timbre.Number.Rounding
import Timbre.Number.Shortest
import Timbre.Number.Literal
import Timbre.Number.Reader
import Timbre.Text
import Timbre.Note
import Timbre.Builtin
import Timbre.Token
import Timbre.Token.Scan
import Timbre.Token.Lexer
import Timbre.SyntaxError
import Timbre.Parser
import Timbre.Term
import Timbre.Term.Expression
import Timbre.Program
import Timbre.Program.Source
import Timbre.Value
import Timbre.Fault
import Timbre.Frames
import Timbre.Evaluation
import Timbre.Machine
import Timbre.Diagnostic
import Timbre.Load
import Timbre.Session
import Timbre.Sampler
import Timbre.Samples
import Timbre.Performance
import Timbre.Options
import Timbre.Command
import Timbre.Main
import Timbre.Proofs.Acceptance
import Timbre.Proofs.Chunks
import Timbre.Proofs.Grammar
import Timbre.Proofs.Growth
import Timbre.Proofs.Lexical
import Timbre.Proofs.LexicalRefinement
import Timbre.Proofs.Outline
import Timbre.Proofs.ParserCompleteness
import Timbre.Proofs.ParserSoundness
import Timbre.Proofs.Parsing
import Timbre.Proofs.Rendering
import Timbre.Proofs.Reuse
import Timbre.Proofs.Occurrence
import Timbre.Proofs.Scoping
import Timbre.Proofs.ParserStability
import Timbre.Proofs.Printing
import Timbre.Proofs.Spelling
import Timbre.Proofs.Flaws
import Timbre.Proofs.Separation
import Timbre.Proofs.Tiling
import Timbre.Proofs.Delivery
import Timbre.Proofs.Coverage
import Timbre.Proofs.Appending
import Timbre.Proofs.Completion
import Timbre.Proofs.Entry
import Timbre.Proofs.Loading
import Timbre.Proofs.Outcome
import Timbre.Proofs.Overlap
import Timbre.Proofs.Correspondence
import Timbre.Proofs.Parts
import Timbre.Proofs.Sampling
import Timbre.Proofs.ClauseReports
import Timbre.Proofs.Diagnostics
import Timbre.Proofs.Ineffective
import Timbre.Proofs.ClausePlaces
import Timbre.Proofs.UnreachableClauses
import Timbre.Proofs.Pruning
import Timbre.Proofs.Influence
import Timbre.Proofs.Transcripts
import Timbre.Proofs.Leading
import Timbre.Proofs.LambdaDot
import Timbre.Proofs.NumberWord
import Timbre.Proofs.TokenKinds
import Timbre.Proofs.Spacing
import Timbre.Proofs.SpacedLexemes
import Timbre.Proofs.ErrorPlaces
import Timbre.Proofs.LiveScopes
import Timbre.Proofs.Budgets
import Timbre.Proofs.CaseChains
import Timbre.Proofs.Repetitions
import Timbre.Proofs.SourceOrder
import Timbre.Proofs.FrameHistories
import Timbre.Proofs.EndlessWalks
import Timbre.Proofs.NoteNames
import Timbre.Proofs.ExactNumerals
import Timbre.Proofs.ChunkLimits
import Timbre.Proofs.LiveLookups
import Timbre.Proofs.ParserProgress
import Timbre.Proofs.ParserTermination
import Timbre.Proofs.LexerTermination
