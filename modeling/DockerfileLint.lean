import DockerfileLint.Main
import DockerfileLint.Proofs.Appending
import DockerfileLint.Proofs.ArgumentSpans
import DockerfileLint.Proofs.Comments
import DockerfileLint.Proofs.ExchangedEscapes
import DockerfileLint.Proofs.FinalBreak
import DockerfileLint.Proofs.KeywordSpans
import DockerfileLint.Proofs.LargerWhitelist
import DockerfileLint.Proofs.LineCuts
import DockerfileLint.Proofs.LineEndings
import DockerfileLint.Proofs.ListShape
import DockerfileLint.Proofs.MaintainerSetting
import DockerfileLint.Proofs.Places
import DockerfileLint.Proofs.Quotes
import DockerfileLint.Proofs.ReportOrder
import DockerfileLint.Proofs.SplitInstruction
import DockerfileLint.Proofs.Surfaces
import DockerfileLint.Proofs.Tokens
import DockerfileLint.Proofs.Totality
import DockerfileLint.Proofs.Whitelist
import DockerfileLint.Report
import DockerfileLint.Service
import DockerfileLint.Text.Cursor
import DockerfileLint.Proofs.RoundTrips
import DockerfileLint.Proofs.InstructionChecks
import DockerfileLint.Proofs.Presence
import DockerfileLint.Proofs.PaddedLines
import DockerfileLint.Proofs.PaddedScan
import DockerfileLint.Proofs.TrailingBlanks
import DockerfileLint.Proofs.PositionOrder
import DockerfileLint.Proofs.LineParts
import DockerfileLint.Proofs.DirectiveGrammar
import DockerfileLint.Proofs.CursorStream
import DockerfileLint.Proofs.IntegerTexts
