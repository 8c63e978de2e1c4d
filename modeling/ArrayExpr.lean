import ArrayExpr.Diagnostic.Listing
import ArrayExpr.Tree.Listing
import ArrayExpr.Main
import ArrayExpr.Proofs.Copies
import ArrayExpr.Proofs.Diagnostic.Excerpt
import ArrayExpr.Proofs.Failure
import ArrayExpr.Proofs.Grammar.Viable
import ArrayExpr.Proofs.Layout
import ArrayExpr.Proofs.Outline
import ArrayExpr.Proofs.Parser.Diagnosis
import ArrayExpr.Proofs.Parser.Limit
import ArrayExpr.Proofs.Parser.Longest
import ArrayExpr.Proofs.Parser.Trace
import ArrayExpr.Proofs.Shift
import ArrayExpr.Proofs.Source
import ArrayExpr.Proofs.Token.Recording
import ArrayExpr.Proofs.Tree.Extent
import ArrayExpr.Proofs.Enclosure
import ArrayExpr.Proofs.Traversal
import ArrayExpr.Proofs.CommandLine.Arguments
import ArrayExpr.Proofs.CommandLine.Verdict
