import Wordflow.Admission
import Wordflow.Analyses.Publication
import Wordflow.AnnotationRun.Calls
import Wordflow.AnnotationRun.Labels
import Wordflow.Arrow.Renames
import Wordflow.Build.Moves
import Wordflow.Build.Structure
import Wordflow.Casts.Judgement
import Wordflow.CellEdit.Sessions
import Wordflow.Changes.Scope
import Wordflow.Crates.Lossless
import Wordflow.Deletion.Closure
import Wordflow.Documents.Decision
import Wordflow.Documents.Exclusive
import Wordflow.Drafts.Follow
import Wordflow.Embedding.Probe
import Wordflow.Ddl.Rebase
import Wordflow.Exports.Cycles
import Wordflow.Files.Deletions
import Wordflow.Gateway.Revocation
import Wordflow.Library.Agreement
import Wordflow.Mutations.Agreement
import Wordflow.Plots.Runs
import Wordflow.Plots.Trends
import Wordflow.Protection
import Wordflow.Providers.Atomicity
import Wordflow.Publications.Follow
import Wordflow.Query.Wrap
import Wordflow.Quotation.Resume
import Wordflow.Quotes.Alignment
import Wordflow.Quotes.Extraction
import Wordflow.Registry.Imports
import Wordflow.Registry.Redefinition
import Wordflow.Registry.Spelling
import Wordflow.Results.Distinct
import Wordflow.Review.Drafts
import Wordflow.Saving.Outcome
import Wordflow.Scripts.Statements
import Wordflow.Segmentation.Coverage
import Wordflow.Sheets.Lossless
import Wordflow.Stopwords.Save
import Wordflow.Tasks.History
import Wordflow.TextCache.Concurrent
import Wordflow.Texts.Windows
import Wordflow.TopicPreviews.Safety
import Wordflow.Topics.Previews
import Wordflow.Topics.Rollup
import Wordflow.Texts.Splits
import Wordflow.Texts.WholeWords
import Wordflow.Query.RenameLayer
import Wordflow.Frequency.Agreement
