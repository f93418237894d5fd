import VisualBasic.Tree.Sexp
import VisualBasic.Tree.Outline
import VisualBasic.Text.Alphanumeric
import VisualBasic.Query.Pattern
import VisualBasic.Query.Reader
import VisualBasic.Query.Match
import VisualBasic.Toml.Document
import VisualBasic.Limits.Configuration
import VisualBasic.CommandLine.Arguments
import VisualBasic.CommandLine.Report
import VisualBasic.Main
import VisualBasic.Proofs.ErrorAccounting
import VisualBasic.Proofs.SingleLineIf
import VisualBasic.Proofs.Lossless
import VisualBasic.Proofs.Recovery
import VisualBasic.Proofs.BlockClosure
import VisualBasic.Proofs.Nesting
import VisualBasic.Proofs.NestRun
import VisualBasic.Proofs.Alike
import VisualBasic.Proofs.Phrase
import VisualBasic.Proofs.PhraseLaws
import VisualBasic.Proofs.Follows
import VisualBasic.Proofs.PhraseRules
import VisualBasic.Proofs.QuietGrammar
import VisualBasic.Proofs.QuietStatements
import VisualBasic.Proofs.Passage
import VisualBasic.Proofs.Alongside
import VisualBasic.Proofs.PassageRules
import VisualBasic.Proofs.LoudStatements
import VisualBasic.Proofs.LoudDeclarations
import VisualBasic.Proofs.KindsOnly
import VisualBasic.Proofs.Speculation
import VisualBasic.Proofs.Standing
import VisualBasic.Proofs.Mirrors
import VisualBasic.Proofs.Refinement
import VisualBasic.Proofs.MirrorDeclarations
import VisualBasic.Proofs.Discipline
import VisualBasic.Proofs.LinkedTrees
import VisualBasic.Proofs.Tiling
import VisualBasic.Proofs.LineScan
import VisualBasic.Proofs.WideDeclarations
import VisualBasic.Proofs.LowDeclarations
import VisualBasic.Proofs.LinePoints
import VisualBasic.Proofs.Wording
import VisualBasic.Proofs.Progress
import VisualBasic.Proofs.Metering
import VisualBasic.Proofs.Termination
import VisualBasic.Proofs.HeedDeclarations
import VisualBasic.Proofs.Slices
import VisualBasic.Proofs.QueryMatches
import VisualBasic.Proofs.Accessors
import VisualBasic.Proofs.RoutineBodies
import VisualBasic.Proofs.Settings
import VisualBasic.Proofs.ItemsApart
import VisualBasic.Proofs.Flags
import VisualBasic.Proofs.OrderedChoice
import VisualBasic.Proofs.Comparisons
import VisualBasic.Proofs.CaptureOrder
import VisualBasic.Proofs.Cuts
import VisualBasic.Proofs.TokenTexts
import VisualBasic.Proofs.Continuations
import VisualBasic.Proofs.QueryGrammar
import VisualBasic.Proofs.QueryReading
import VisualBasic.Proofs.Disregard
import VisualBasic.Proofs.DisregardClauses
import VisualBasic.Proofs.DisregardDeclarations
import VisualBasic.Proofs.Fronting
import VisualBasic.Proofs.SwappedMembers
import VisualBasic.Proofs.SwappedProperties
import VisualBasic.Proofs.Skeleton
import VisualBasic.Proofs.OpeningDeclarations
import VisualBasic.Proofs.PrefixAgreement
import VisualBasic.Proofs.WordsInExpressions
import VisualBasic.Proofs.SwappedFiles
