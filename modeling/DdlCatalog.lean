import DdlCatalog.Main
import DdlCatalog.Schema.OfJson
import DdlCatalog.Proofs.Concatenation
import DdlCatalog.Proofs.SteadyGrammar
import DdlCatalog.Proofs.RoundTrip
import DdlCatalog.Proofs.TokenTiling
import DdlCatalog.Proofs.Lexemes
import DdlCatalog.Proofs.MaximalMunch
import DdlCatalog.Proofs.TokenConcatenation
import DdlCatalog.Proofs.ScannerRuns
import DdlCatalog.Proofs.JsonLeaves
import DdlCatalog.Proofs.JsonPieces
import DdlCatalog.Proofs.JsonText
import DdlCatalog.Proofs.JsonValues
import DdlCatalog.Proofs.SchemaJson
import DdlCatalog.Proofs.Renaming
import DdlCatalog.Proofs.QuotedText
import DdlCatalog.Proofs.CommandLine
import DdlCatalog.Proofs.FileLoop
import DdlCatalog.Proofs.Positions
import DdlCatalog.Proofs.OutputLines
import DdlCatalog.Proofs.Layout
import DdlCatalog.Proofs.MunchedPlaces
import DdlCatalog.Proofs.KeywordCase
import DdlCatalog.Proofs.LexicalFailure
import DdlCatalog.Proofs.DiskPlaces
import DdlCatalog.Proofs.DiskGrowth
import DdlCatalog.Proofs.OutputFolder
import DdlCatalog.Proofs.LiteralLimits
import DdlCatalog.Proofs.LastDefinitions
import DdlCatalog.Proofs.ColumnOrder
import DdlCatalog.Proofs.ColumnMarks
import DdlCatalog.Proofs.JoinedLiterals
import DdlCatalog.Proofs.TableNames
import DdlCatalog.Proofs.SkippedClauses
import DdlCatalog.Proofs.RulePaths
import DdlCatalog.Proofs.WellFormed
import DdlCatalog.Proofs.StatementEffects
import DdlCatalog.Proofs.KeywordSets
import DdlCatalog.Proofs.IsolatedTokens
import DdlCatalog.Proofs.StoreReplay
import DdlCatalog.Proofs.JsonForms
import DdlCatalog.Proofs.JsonDecoders
import DdlCatalog.Proofs.JsonRecords
import DdlCatalog.Proofs.SchemaPresentations
import DdlCatalog.Proofs.CursorRuns
import DdlCatalog.Proofs.ByteOrder
import DdlCatalog.Proofs.FolderNames
import DdlCatalog.Proofs.ScriptListing
import DdlCatalog.Proofs.OutputFrame
import DdlCatalog.Proofs.GrantsAndComments
import DdlCatalog.Proofs.FaultChains
import DdlCatalog.Proofs.ArgumentOrder
import DdlCatalog.Proofs.RegionRequests
import DdlCatalog.Proofs.ColumnPlaces
import DdlCatalog.Proofs.TypeParameters
import DdlCatalog.Proofs.ElementEnds
import DdlCatalog.Proofs.TokenTexts
import DdlCatalog.Proofs.KeywordOrder
import DdlCatalog.Proofs.Previews
