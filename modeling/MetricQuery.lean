import MetricQuery.Proofs.Answering
import MetricQuery.Proofs.Dataflow.Shifting
import MetricQuery.Proofs.Dataflow.Terminating
import MetricQuery.Proofs.Extending
import MetricQuery.Proofs.Filter.Commuting
import MetricQuery.Proofs.Filter.Regrouping
import MetricQuery.Proofs.Filter.Reporting
import MetricQuery.Proofs.Filter.Substitution
import MetricQuery.Proofs.Filter.Tracing
import MetricQuery.Proofs.Item.Consistency
import MetricQuery.Proofs.Item.Ranking
import MetricQuery.Proofs.Keeping
import MetricQuery.Proofs.Labelling
import MetricQuery.Proofs.Manifest.Rereading
import MetricQuery.Proofs.Planning
import MetricQuery.Proofs.Query.Ordering
import MetricQuery.Proofs.Remembering
import MetricQuery.Proofs.Scope.Contributing
import MetricQuery.Proofs.Scope.Grains
import MetricQuery.Proofs.Scope.Occurrences
import MetricQuery.Proofs.Scope.Reaching
import MetricQuery.Proofs.Scope.Suggesting
import MetricQuery.Proofs.Sql.Merging
import MetricQuery.Proofs.Sql.Repeats
import MetricQuery.Proofs.Sql.Tokens
import MetricQuery.Proofs.Unmeasured
import MetricQuery.Query.Reader
import MetricQuery.Settings.Reader
