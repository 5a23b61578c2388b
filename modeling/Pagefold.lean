import Pagefold.CommandLine.Run
import Pagefold.Flatten
import Pagefold.Main
import Pagefold.Proofs.Path.Canonical
import Pagefold.Proofs.Expansion.Includes
import Pagefold.Proofs.Tree.Walk
import Pagefold.Proofs.Disk.Reach
import Pagefold.Proofs.Expansion.Outcome
import Pagefold.Proofs.Expansion.Siblings
import Pagefold.Proofs.Disk.Folders
import Pagefold.Proofs.Disk.Files
import Pagefold.Proofs.Disk.Copy
import Pagefold.Proofs.Flatten.Assets
import Pagefold.Proofs.Flatten.Changes
import Pagefold.Proofs.Text.Ascending
import Pagefold.Proofs.Text.Matches
import Pagefold.Proofs.Json.Strings
import Pagefold.Proofs.Directive.Inline
import Pagefold.Proofs.Text.Clean
import Pagefold.Proofs.Text.Fold
import Pagefold.Proofs.Reference.Lead
import Pagefold.Proofs.Reference.Redirect
import Pagefold.Proofs.Reference.Found
import Pagefold.Proofs.Reference.Leftover
import Pagefold.Proofs.Reference.Aligned
import Pagefold.Proofs.Report.Redirected
import Pagefold.Proofs.Expansion.Copied
import Pagefold.Proofs.Directive.Extent
import Pagefold.Proofs.Expansion.Seams
import Pagefold.Proofs.Path.Relative
import Pagefold.Proofs.Token.Leftover
import Pagefold.Proofs.Flatten.Tokens
import Pagefold.Proofs.Context.Placeholder
import Pagefold.Proofs.Context.Unknown
import Pagefold.Proofs.Path.Above
import Pagefold.Proofs.Disk.Accepted
import Pagefold.Proofs.Disk.Mirror
import Pagefold.Proofs.Disk.Faithful
import Pagefold.Proofs.Disk.Outline
import Pagefold.Proofs.Expansion.Course
import Pagefold.Proofs.Diagnostic.Marks
import Pagefold.Proofs.Expansion.Marked
import Pagefold.Proofs.Flatten.Missing
import Pagefold.Proofs.Expansion.Cycle
import Pagefold.Proofs.Starter.Head
import Pagefold.Proofs.Text.Places
import Pagefold.Proofs.Text.Exchange
import Pagefold.Proofs.Text.Leftmost
import Pagefold.Proofs.Directive.Grammar
import Pagefold.Proofs.Context.Longest
import Pagefold.Proofs.Starter.Insertion
import Pagefold.Proofs.Report.Tags
import Pagefold.Proofs.Starter.Balanced
import Pagefold.Proofs.Expansion.Locality
import Pagefold.Proofs.Expansion.Joined
import Pagefold.Proofs.Starter.Detected
import Pagefold.Proofs.Text.First
import Pagefold.Proofs.Starter.Spliced
import Pagefold.Proofs.Context.InTurn
import Pagefold.Proofs.Json.Members
import Pagefold.Proofs.Context.Nested
import Pagefold.Proofs.Json.Written
import Pagefold.Proofs.Context.Reported
import Pagefold.Proofs.Text.Positions
import Pagefold.Proofs.Report.Findings
import Pagefold.Proofs.Text.Patch
import Pagefold.Proofs.Reference.Simultaneous
import Pagefold.Proofs.Path.Normal
import Pagefold.Proofs.Token.Divided
import Pagefold.Proofs.Starter.Whole
import Pagefold.Proofs.Report.Padded
