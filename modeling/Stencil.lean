import Stencil.Main
import Stencil.Proofs.Session.Isolated
import Stencil.Proofs.EscapedOutput
import Stencil.Proofs.Quoting
import Stencil.Proofs.Writing
import Stencil.Proofs.Representation
import Stencil.Proofs.LoopControl
import Stencil.Proofs.Layout.Joining
import Stencil.Proofs.Layout.Blocks
import Stencil.Proofs.Layout.Margins
import Stencil.Proofs.Sections.Forms
import Stencil.Proofs.Tracking
import Stencil.Proofs.Ending
import Stencil.Proofs.Folding
import Stencil.Proofs.Numbering
import Stencil.Proofs.Indentation
import Stencil.Proofs.Caching
import Stencil.Proofs.Reads
import Stencil.Proofs.Screens
import Stencil.Proofs.Screens.Rules
import Stencil.Proofs.Roots
import Stencil.Proofs.Roots.Stepwise
import Stencil.Proofs.Unread
import Stencil.Proofs.Leftovers
import Stencil.Proofs.Tiling
import Stencil.Proofs.Variables
import Stencil.Proofs.Comments
import Stencil.Proofs.Delimiting
import Stencil.Proofs.Binding
import Stencil.Proofs.Arithmetic
import Stencil.Proofs.Powers
import Stencil.Proofs.Ranges
import Stencil.Proofs.Slicing
import Stencil.Proofs.Ordering
import Stencil.Proofs.Ranking
import Stencil.Proofs.Fields
import Stencil.Proofs.Sameness
import Stencil.Proofs.Searching
import Stencil.Proofs.Views
import Stencil.Proofs.Decoding
import Stencil.Proofs.Targets
import Stencil.Proofs.Headers
import Stencil.Proofs.Progress
import Stencil.Proofs.Tidiness
