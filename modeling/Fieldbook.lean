import Fieldbook.Config
import Fieldbook.Proofs.Ownership.Tree
import Fieldbook.Proofs.Store.Versions
import Fieldbook.Proofs.Workspace.LiveRules
import Fieldbook.Proofs.Workspace.Rights
import Fieldbook.Store.Tampering
import Fieldbook.Workspace.Call
import Fieldbook.Proofs.Store.Consistent
import Fieldbook.Proofs.Store.Connections
import Fieldbook.Proofs.Ownership.Marks
import Fieldbook.Proofs.Workspace.Permanence
import Fieldbook.Proofs.Workspace.Agreement
import Fieldbook.Proofs.Workspace.Listings
import Fieldbook.Proofs.FormTree.Following
import Fieldbook.Proofs.Workspace.Hidden
import Fieldbook.Proofs.Workspace.Pending
import Fieldbook.Proofs.Expr.Display
import Fieldbook.Proofs.FormTree.Shape
import Fieldbook.Proofs.FieldValue.Canonical
import Fieldbook.Proofs.Workspace.Unseen
import Fieldbook.Proofs.Workspace.Disclosure
import Fieldbook.Proofs.Workspace.Columns
import Fieldbook.Proofs.Workspace.Taking
import Fieldbook.Proofs.Workspace.Gaps
import Fieldbook.Proofs.Workspace.SystemRows
import Fieldbook.Proofs.Workspace.Framing
import Fieldbook.Proofs.Workspace.Secrecy
import Fieldbook.Proofs.Store.WritePaths
import Fieldbook.Proofs.Store.Keeping
import Fieldbook.Proofs.Store.Committing
import Fieldbook.Proofs.Form.Storing
import Fieldbook.Proofs.Ownership.Nearest
import Fieldbook.Proofs.FormTree.Depth
import Fieldbook.Proofs.FormTree.Finding
import Fieldbook.Proofs.FormTree.Cycles
import Fieldbook.Proofs.Workspace.Showing
import Fieldbook.Proofs.Column.Results
import Fieldbook.Proofs.Expr.Unfinished
import Fieldbook.Proofs.Expr.Safety
import Fieldbook.Proofs.Workspace.Filtering
import Fieldbook.Proofs.Column.Choices
import Fieldbook.Proofs.Expr.References
import Fieldbook.Proofs.Form.Removal
