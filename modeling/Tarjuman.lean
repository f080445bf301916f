import Tarjuman.Build.Folder
import Tarjuman.Command.Run
import Tarjuman.Diagnostic.Document
import Tarjuman.Diagnostic.Line
import Tarjuman.Main
import Tarjuman.Project.Scaffold
import Tarjuman.Release
import Tarjuman.Screen.Live
import Tarjuman.Screen.Progress
import Tarjuman.Script.Transpile
import Tarjuman.Token.Listing
import Tarjuman.Token.Stream
import Tarjuman.Proofs.LexemeBounds
import Tarjuman.Proofs.TokenStream
import Tarjuman.Proofs.LexemeText
import Tarjuman.Proofs.ByteCoverage
import Tarjuman.Proofs.IndexWalk
import Tarjuman.Proofs.Reading
import Tarjuman.Proofs.TreeTokens
import Tarjuman.Proofs.ReportPlaces
import Tarjuman.Proofs.BagLimit
import Tarjuman.Proofs.PayloadRoundTrip
import Tarjuman.Proofs.JobRun
import Tarjuman.Proofs.ErrorStatus
import Tarjuman.Proofs.BlockStructure
import Tarjuman.Proofs.CacheKey
import Tarjuman.Proofs.DiskLookup
import Tarjuman.Proofs.PackedRoundTrip
import Tarjuman.Proofs.MadeDirectories
import Tarjuman.Proofs.StoreEntries
import Tarjuman.Proofs.CacheTransparency
import Tarjuman.Proofs.StatementWalk
import Tarjuman.Proofs.ReadingEnds
import Tarjuman.Proofs.StatementRanges
import Tarjuman.Proofs.NameUses
import Tarjuman.Proofs.NameSpelling
import Tarjuman.Proofs.BoundBeforeUse
import Tarjuman.Proofs.TokenLanguages
import Tarjuman.Proofs.Characters
import Tarjuman.Proofs.KeywordChoice
import Tarjuman.Proofs.Shift
import Tarjuman.Proofs.LineBreaks
import Tarjuman.Proofs.SilentStatements
import Tarjuman.Proofs.ShiftedScript
import Tarjuman.Proofs.ReportOrigins
import Tarjuman.Proofs.SharedCaches
import Tarjuman.Proofs.SourceOrder
import Tarjuman.Proofs.FolderProgress
import Tarjuman.Proofs.FolderSchedules
import Tarjuman.Proofs.FolderEvents
import Tarjuman.Proofs.ProgressCounts
import Tarjuman.Proofs.SpellingChoice
import Tarjuman.Proofs.ReportOrder
import Tarjuman.Proofs.UnclosedBlocks
import Tarjuman.Proofs.LatinNames
import Tarjuman.Proofs.ScriptGrammar
import Tarjuman.Proofs.DenotedTrees
import Tarjuman.Proofs.ExpressionsReadBack
import Tarjuman.Proofs.DistinctSpellings
import Tarjuman.Proofs.LineEnds
import Tarjuman.Proofs.Lookahead
import Tarjuman.Proofs.FileWrites
import Tarjuman.Proofs.DamagedEntries
import Tarjuman.Proofs.StoreMap
import Tarjuman.Proofs.LineIndex
import Tarjuman.Proofs.SourceLines
import Tarjuman.Proofs.CharacterBoundaries
import Tarjuman.Proofs.LexerReports
import Tarjuman.Proofs.LatinFixedPoints
import Tarjuman.Proofs.BagOperations
import Tarjuman.Proofs.CappedRuns
import Tarjuman.Proofs.NumberValues
import Tarjuman.Proofs.QuotedValues
import Tarjuman.Proofs.SortedDiagnostics
import Tarjuman.Proofs.TimingReports
import Tarjuman.Proofs.CleanContents
import Tarjuman.Proofs.OutputPaths
import Tarjuman.Proofs.BuildWrites
import Tarjuman.Proofs.SeparatorEscapes
import Tarjuman.Proofs.FreshDirectories
import Tarjuman.Proofs.ManifestRoundTrip
import Tarjuman.Proofs.ScaffoldFaults
import Tarjuman.Proofs.FirstInFirstOut
import Tarjuman.Proofs.FileVersions
import Tarjuman.Proofs.PrintersInRange
import Tarjuman.Proofs.TraceLines
import Tarjuman.Proofs.LineWords
