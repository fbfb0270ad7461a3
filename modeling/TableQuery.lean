import TableQuery.Cursor
import TableQuery.Json.Codec
import TableQuery.Json.Reader
import TableQuery.Json.Writer
import TableQuery.Proofs.Sites
import TableQuery.Proofs.Trim
import TableQuery.Statement
import TableQuery.Proofs.KeywordMatch
import TableQuery.Proofs.LiteralScan
import TableQuery.Proofs.Search
import TableQuery.Proofs.ItemList
import TableQuery.Proofs.Joints
import TableQuery.Proofs.Clauses
import TableQuery.Proofs.Where
import TableQuery.Proofs.Cursor
import TableQuery.Proofs.Join
import TableQuery.Proofs.SelectHead
import TableQuery.Proofs.SortKey
import TableQuery.Proofs.Limit
import TableQuery.Proofs.Isolation
import TableQuery.Proofs.SelectRendering
import TableQuery.Proofs.CanonicalSelect
import TableQuery.Proofs.SelectRereading
import TableQuery.Proofs.QualifiedName
import TableQuery.Proofs.InsertParts
import TableQuery.Proofs.InsertRendering
import TableQuery.Proofs.InsertRereading
import TableQuery.Proofs.Frame
import TableQuery.Proofs.StatementRendering
import TableQuery.Proofs.Twins
import TableQuery.Proofs.LiteralContent
import TableQuery.Proofs.Outcome
import TableQuery.Proofs.Spelling
import TableQuery.Proofs.Scan
import TableQuery.Proofs.ClauseOccurrences
import TableQuery.Proofs.InsertRefusals
import TableQuery.Proofs.ErrorRange
import TableQuery.Proofs.ErrorKinds
import TableQuery.Proofs.ErrorSources
import TableQuery.Proofs.ClauseOrder
import TableQuery.Proofs.CharClass
import TableQuery.Proofs.KeywordGrammar
import TableQuery.Proofs.Respelling
import TableQuery.Proofs.RespelledPieces
import TableQuery.Proofs.RespelledReaders
import TableQuery.Proofs.Folding
import TableQuery.Proofs.Padding
import TableQuery.Proofs.EntryPoints
import TableQuery.Proofs.SelectForm
import TableQuery.Proofs.Relocation
import TableQuery.Proofs.JsonText
import TableQuery.Proofs.JsonCodec
import TableQuery.Proofs.Cut
import TableQuery.Proofs.Division
import TableQuery.Proofs.Commas
import TableQuery.Proofs.Connectors
import TableQuery.Proofs.InsertGrammar
import TableQuery.Proofs.Condition
import TableQuery.Proofs.LeadingConnector
import TableQuery.Proofs.QuoteLayers
import TableQuery.Proofs.LiteralGrammar
import TableQuery.Proofs.QuotedNames
import TableQuery.Proofs.AggregatePattern
import TableQuery.Proofs.AggregateCalls
import TableQuery.Proofs.WordPlaces
import TableQuery.Proofs.JoinGrammar
import TableQuery.Proofs.SortEntries
import TableQuery.Proofs.HeadGrammar
import TableQuery.Proofs.Settings
import TableQuery.Proofs.Moves
