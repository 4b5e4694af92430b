import ChangeQuery.Config.Document
import ChangeQuery.Corpus.File
import ChangeQuery.Proofs.Alignment.Assignment
import ChangeQuery.Proofs.Fingerprint.Dimension
import ChangeQuery.Proofs.Search.Run
import ChangeQuery.Proofs.Similarity.Order
import ChangeQuery.Search.Explanation
import ChangeQuery.Text.Quoted
import ChangeQuery.Proofs.Search.Agreement
import ChangeQuery.Proofs.Peg.Depth
import ChangeQuery.Proofs.Peg.Trees
import ChangeQuery.Proofs.Peg.Texts
import ChangeQuery.Proofs.ChangeGrammar.Words
import ChangeQuery.Proofs.ChangeGrammar.Sides
import ChangeQuery.Proofs.Change.Split
import ChangeQuery.Proofs.Comparison.Matches
import ChangeQuery.Proofs.Comparison.Pieces
import ChangeQuery.Proofs.ChangeGrammar.Nodes
import ChangeQuery.Proofs.Comparison.Unnumbered
import ChangeQuery.Proofs.Search.TokenRejects
import ChangeQuery.Proofs.Abstraction.Basic
import ChangeQuery.Proofs.Abstraction.Matching
import ChangeQuery.Proofs.Abstraction.Whole
import ChangeQuery.Proofs.Abstraction.Replace
import ChangeQuery.Proofs.Search.Accounting
import ChangeQuery.Proofs.Search.Stopping
import ChangeQuery.Proofs.Tree.Growth
import ChangeQuery.Proofs.Tree.Planting
import ChangeQuery.Proofs.ChangeGrammar.Splitting
import ChangeQuery.Proofs.SExpr.Reading
import ChangeQuery.Proofs.SExpr.RoundTrip
import ChangeQuery.Proofs.Tree.Sites
import ChangeQuery.Proofs.Tree.Symbols
import ChangeQuery.Proofs.Comparison.PlainQuery
import ChangeQuery.Proofs.Tree.Links
import ChangeQuery.Proofs.Tree.Traversal
import ChangeQuery.Proofs.Tree.Outline
import ChangeQuery.Proofs.Comparison.Outlines
import ChangeQuery.Proofs.Fingerprint.Labels
import ChangeQuery.Proofs.Change.Outline
import ChangeQuery.Proofs.Tree.Together
import ChangeQuery.Proofs.Comparison.Observation
import ChangeQuery.Proofs.Search.Vocabularies
import ChangeQuery.Proofs.Peg.Weaving
import ChangeQuery.Proofs.ChangeGrammar.Layout
import ChangeQuery.Proofs.Text.Lines
import ChangeQuery.Proofs.Corpus.Storage
import ChangeQuery.Proofs.Index.Selection
import ChangeQuery.Proofs.Index.Nearest
import ChangeQuery.Proofs.FeatureRows.RoundTrip
import ChangeQuery.Proofs.Corpus.Features
import ChangeQuery.Proofs.Similarity.Rounding
import ChangeQuery.Proofs.Similarity.Cosine
import ChangeQuery.Proofs.Config.Settings
import ChangeQuery.Proofs.Search.Completeness
import ChangeQuery.Proofs.Placeholder.Rules
import ChangeQuery.Proofs.Corpus.Origins
import ChangeQuery.Proofs.Comparison.Skeleton
import ChangeQuery.Proofs.Search.Startup
import ChangeQuery.Proofs.Comparison.Generalised
import ChangeQuery.Proofs.Tree.Postorder
import ChangeQuery.Proofs.Comparison.Decisions
import ChangeQuery.Proofs.Alignment.Variants
import ChangeQuery.Proofs.Peg.Characters
import ChangeQuery.Proofs.ChangeGrammar.Tokens
import ChangeQuery.Proofs.LineCode.Domain
import ChangeQuery.Proofs.Text.Bytes
import ChangeQuery.Proofs.FeatureRows.Format
import ChangeQuery.Proofs.Fingerprint.Repetition
import ChangeQuery.Proofs.Fingerprint.Counts
import ChangeQuery.Proofs.Fingerprint.Sections
import ChangeQuery.Proofs.Tree.Paths
import ChangeQuery.Proofs.Fingerprint.Sensitivity
import ChangeQuery.Proofs.Placeholder.Longest
import ChangeQuery.Proofs.Placeholder.Bare
import ChangeQuery.Proofs.Corpus.CommitLines
import ChangeQuery.Proofs.ChangeGrammar.PlaceholderTokens
import ChangeQuery.Proofs.ChangeGrammar.Shapes
import ChangeQuery.Proofs.Tree.Texts
import ChangeQuery.Proofs.Change.Delimiter
import ChangeQuery.Proofs.Index.Exactness
import ChangeQuery.Proofs.Alignment.Positions
