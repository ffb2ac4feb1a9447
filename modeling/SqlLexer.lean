import SqlLexer.Main
import SqlLexer.Session
import SqlLexer.Proofs.Lookahead
import SqlLexer.Proofs.TokenStream
import SqlLexer.Proofs.Pull
import SqlLexer.Proofs.SessionStream
import SqlLexer.Proofs.QuotedText
import SqlLexer.Proofs.Spelling
import SqlLexer.Proofs.Tiling
import SqlLexer.Proofs.Boundary
import SqlLexer.Proofs.Literal
import SqlLexer.Proofs.Locality
import SqlLexer.Proofs.Progress
import SqlLexer.Proofs.Delimiting
import SqlLexer.Proofs.Joining
import SqlLexer.Proofs.Bytewise.Session
import SqlLexer.Proofs.FinalEnd
import SqlLexer.Proofs.StrictTokens
import SqlLexer.Proofs.Defects
import SqlLexer.Proofs.LetterCase
import SqlLexer.Proofs.QuotedUnits
import SqlLexer.Proofs.SpanBytes
import SqlLexer.Proofs.Separators
import SqlLexer.Proofs.CharacterBoundaries
import SqlLexer.Proofs.Rewriting
import SqlLexer.Proofs.LongestMatch
import SqlLexer.Proofs.NumeralGrammar
import SqlLexer.Proofs.CommentExtent
import SqlLexer.Proofs.KeywordTable
import SqlLexer.Proofs.Words
import SqlLexer.Proofs.LiteralForm
import SqlLexer.Proofs.HandedOut
import SqlLexer.Proofs.Diagnostics
import SqlLexer.Proofs.KindCodes
import SqlLexer.Proofs.Requoting
import SqlLexer.Proofs.Verdict
import SqlLexer.Proofs.Lockstep
import SqlLexer.Proofs.Journal
import SqlLexer.Proofs.KeptResult
import SqlLexer.Proofs.NormalForm
import SqlLexer.Proofs.Settings
