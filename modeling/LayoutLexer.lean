import LayoutLexer.Bytes
import LayoutLexer.ByteClass
import LayoutLexer.Symbol
import LayoutLexer.Keyword
import LayoutLexer.Kind
import LayoutLexer.Token
import LayoutLexer.Piece
import LayoutLexer.Cursor
import LayoutLexer.Scan
import LayoutLexer.Utf8
import LayoutLexer.Unprintable
import LayoutLexer.Quoted
import LayoutLexer.Event
import LayoutLexer.Dump
import LayoutLexer.Buffer
import LayoutLexer.Diagnostic
import LayoutLexer.Scanner
import LayoutLexer.Failure
import LayoutLexer.FileTree
import LayoutLexer.CommandLine
import LayoutLexer.Machine
import LayoutLexer.Main
import LayoutLexer.Proofs.ByteRanges
import LayoutLexer.Proofs.FirstPiece
import LayoutLexer.Proofs.LineCut
import LayoutLexer.Proofs.LineTokens
import LayoutLexer.Proofs.LineLocality
import LayoutLexer.Proofs.SourceTiling
import LayoutLexer.Proofs.CharacterBoundary
import LayoutLexer.Proofs.CheckedScanner
import LayoutLexer.Proofs.ScannerSafety
import LayoutLexer.Proofs.SpelledLine
import LayoutLexer.Proofs.Reprint
import LayoutLexer.Proofs.Indentation
import LayoutLexer.Proofs.DumpReading
import LayoutLexer.Proofs.MaximalRuns
import LayoutLexer.Proofs.StringsAndComments
import LayoutLexer.Proofs.BufferedOutput
import LayoutLexer.Proofs.CreatedFiles
import LayoutLexer.Proofs.FailureReports
import LayoutLexer.Proofs.HostLaws
import LayoutLexer.Proofs.ProgramRuns
import LayoutLexer.Proofs.ProgramFailures
import LayoutLexer.Proofs.DroppedBytes
import LayoutLexer.Proofs.CaretDiagnostic
import LayoutLexer.Proofs.LevelChanges
import LayoutLexer.Proofs.ScanLog
import LayoutLexer.Proofs.DumpLines
import LayoutLexer.Proofs.CarriageReturns
import LayoutLexer.Proofs.PositionBounds
import LayoutLexer.Proofs.ScannerLives
import LayoutLexer.Proofs.LongestSymbol
import LayoutLexer.Proofs.BoundedDump
import LayoutLexer.Proofs.TabsAndSpaces
import LayoutLexer.Proofs.ScannerPlace
