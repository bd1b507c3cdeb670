import AccessChain.Main
import AccessChain.Hover.Answer
import AccessChain.Proofs.BalancedParts
import AccessChain.Proofs.BeforeCursor
import AccessChain.Proofs.BoundaryKinds
import AccessChain.Proofs.ByteCuts
import AccessChain.Proofs.Cells
import AccessChain.Proofs.CallArguments
import AccessChain.Proofs.CharacterEdges
import AccessChain.Proofs.CommentContents
import AccessChain.Proofs.Comments
import AccessChain.Proofs.Decoding
import AccessChain.Proofs.Delimiters
import AccessChain.Proofs.HeredocForm
import AccessChain.Proofs.HeredocLabels
import AccessChain.Proofs.HoverRange
import AccessChain.Proofs.IndexedChains
import AccessChain.Proofs.LastStop
import AccessChain.Proofs.LeftContext
import AccessChain.Proofs.LeftEdge
import AccessChain.Proofs.Lines
import AccessChain.Proofs.Links
import AccessChain.Proofs.Lookahead
import AccessChain.Proofs.Margins
import AccessChain.Proofs.Nesting
import AccessChain.Proofs.Offsets
import AccessChain.Proofs.OpenGroups
import AccessChain.Proofs.Rejoining
import AccessChain.Proofs.ReportedPositions
import AccessChain.Proofs.Restart
import AccessChain.Proofs.Segmentation
import AccessChain.Proofs.StrayBytes
import AccessChain.Proofs.StringContents
import AccessChain.Proofs.Truncation
import AccessChain.Proofs.Written
import AccessChain.Proofs.WrittenChain
import AccessChain.Proofs.WrittenScan
import AccessChain.Proofs.WrittenSegments
import AccessChain.Proofs.WrittenTokens
import AccessChain.Proofs.RoundTrip
import AccessChain.Proofs.TopLevelGroups
import AccessChain.Proofs.LineNumbers
import AccessChain.Proofs.OutermostGroups
import AccessChain.Proofs.OperatorCuts
import AccessChain.Proofs.NameKinds
import AccessChain.Proofs.BoundaryLayers
import AccessChain.Proofs.ExitCodes
import AccessChain.Proofs.PlainText
import AccessChain.Proofs.OffsetReports
import AccessChain.Proofs.PositionOrder
import AccessChain.Proofs.TokenDump
import AccessChain.Proofs.TokenTracking
