import Mustache.Options.Toml
import Mustache.Program.Listing
import Mustache.Report
import Mustache.Template.Pool
import Mustache.Value.Json
import Mustache.Value.Toml
import Mustache.Proofs.Nesting
import Mustache.Proofs.Trimming
import Mustache.Proofs.FirstFault
import Mustache.Proofs.Tree
import Mustache.Proofs.Assembly
import Mustache.Proofs.Linking
import Mustache.Proofs.Patching
import Mustache.Proofs.Caching
import Mustache.Proofs.Transcript
import Mustache.Proofs.Evaluation
import Mustache.Proofs.Refinement
import Mustache.Proofs.Interchange
import Mustache.Proofs.Pools
import Mustache.Proofs.Sessions
import Mustache.Proofs.Transparency
import Mustache.Proofs.Leftmost
import Mustache.Proofs.Reading
import Mustache.Proofs.Marks
import Mustache.Proofs.Elision
import Mustache.Proofs.Delivery
import Mustache.Proofs.Inclusions
import Mustache.Proofs.DepthLimit
import Mustache.Proofs.Budgets
import Mustache.Proofs.Reaching
import Mustache.Proofs.SectionLimit
import Mustache.Proofs.Markup
import Mustache.Proofs.Seams
import Mustache.Proofs.Concatenation
import Mustache.Proofs.Fusion
import Mustache.Proofs.Composition
import Mustache.Proofs.Bodies
import Mustache.Proofs.Cutting
import Mustache.Proofs.RawText
import Mustache.Proofs.Switching
import Mustache.Proofs.History
import Mustache.Proofs.Serving
import Mustache.Proofs.Ledger
import Mustache.Proofs.CacheContents
import Mustache.Proofs.Keys
import Mustache.Proofs.Visibility
import Mustache.Proofs.Locating
import Mustache.Proofs.Excerpts
import Mustache.Proofs.Failing
import Mustache.Proofs.Wrapping
import Mustache.Proofs.Precompiled
import Mustache.Proofs.LineStarts
import Mustache.Proofs.Matching
import Mustache.Proofs.Insertion
import Mustache.Proofs.CommentLines
import Mustache.Proofs.Enclosing
import Mustache.Proofs.Unclaimed
import Mustache.Proofs.Invisible
import Mustache.Proofs.Escaping
import Mustache.Proofs.Unescaping
import Mustache.Proofs.Segmentation
import Mustache.Proofs.Labels
