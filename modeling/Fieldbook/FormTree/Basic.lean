import Fieldbook.Form.Basic
import Fieldbook.Text.Segments

/-!
# FormTree/Basic — a form together with the forms it leads to

The tree of a form has a node for every field of the form, and under a field that leads to other
forms a node for every field of those. Before the fields of the root form stand two that every form
has: who submitted a resource, and when.

Nodes are numbered in the order in which they are met from the root, a node before those under it.
`FormTree.listing` gives that list with every node's place in the tree, and `FormTree.trail?`
finds a node by a dotted path: at each level the first node of the name.
-/

namespace Fieldbook

/-- A field in its place, with the fields of the forms that it leads to. -/
inductive FieldNode where
  /-- A `field` of the form named `form`; an `intrinsic` one is not declared by the form. -/
  | node (form : ResourceId) (field : FormField) (intrinsic : Bool) (children : List FieldNode)

/-- A form with the tree of its fields. -/
structure FormTree where
  root : Form
  nodes : List FieldNode

/-- A node with its place in the tree. -/
structure PlacedNode where
  form : ResourceId
  field : FormField
  intrinsic : Bool
  /-- The number of the node that this one stands under. -/
  parent : Option Nat
  /-- The numbers of the nodes right under this one. -/
  children : List Nat
  /-- The fields from the root down to this one. -/
  path : List FieldId
  childFields : List FieldId
  deriving DecidableEq

/-! ## Nodes -/

namespace FieldNode

def form : FieldNode → ResourceId
  | .node form _ _ _ => form

def field : FieldNode → FormField
  | .node _ field _ _ => field

def isIntrinsic : FieldNode → Bool
  | .node _ _ intrinsic _ => intrinsic

def children : FieldNode → List FieldNode
  | .node _ _ _ children => children

mutual

/-- How many nodes there are in the tree under a node, itself included. -/
def size : FieldNode → Nat
  | .node _ _ _ children => 1 + sizeAll children

def sizeAll : List FieldNode → Nat
  | [] => 0
  | n :: rest => n.size + sizeAll rest

end

/-- The numbers of nodes side by side, of which the first has the number `start`. -/
def numbers (start : Nat) : List FieldNode → List Nat
  | [] => []
  | n :: rest => start :: numbers (start + n.size) rest

mutual

/-- The nodes of the tree under a node, itself first, when its number is `start`. -/
def listing (start : Nat) (parent : Option Nat) (path : List FieldId) :
    FieldNode → List PlacedNode
  | .node form field intrinsic children =>
    let here : PlacedNode :=
      { form := form, field := field, intrinsic := intrinsic, parent := parent,
        children := numbers (start + 1) children, path := path ++ [field.id],
        childFields := children.map fun n => n.field.id }
    here :: listingAll (start + 1) (some start) here.path children

def listingAll (start : Nat) (parent : Option Nat) (path : List FieldId) :
    List FieldNode → List PlacedNode
  | [] => []
  | n :: rest => n.listing start parent path ++ listingAll (start + n.size) parent path rest

end

/-- The first node of a name, with its number. -/
def first? (id : FieldId) (start : Nat) : List FieldNode → Option (Nat × FieldNode)
  | [] => none
  | n :: rest => if n.field.id = id then some (start, n) else first? id (start + n.size) rest

/-- The nodes on the way down a path, each the first of its name. -/
def trailFrom? (start : Nat) (nodes : List FieldNode) :
    List FieldId → Option (List (Nat × FieldNode))
  | [] => some []
  | id :: rest => do
    let (number, n) ← first? id start nodes
    let trail ← trailFrom? (number + 1) n.children rest
    pure ((number, n) :: trail)

end FieldNode

/-! ## Trees -/

namespace FormTree

/-- The field that tells who submitted a resource. -/
def creatorField : FormField where
  id := ⟨"_creator"⟩
  label := "Submitted by"
  description := none
  type := .text
  required := false
  readOnly := true

/-- The field that tells when a resource was submitted. -/
def submissionTimeField : FormField where
  id := ⟨"_commit_time"⟩
  label := "Submission time"
  description := none
  type := .instant
  required := false
  readOnly := true

/-- The nodes that the tree of every form begins with. -/
def intrinsicNodes (form : ResourceId) : List FieldNode :=
  [.node form creatorField true [], .node form submissionTimeField true []]

/-- All nodes with their places. -/
def listing (t : FormTree) : List PlacedNode := FieldNode.listingAll 0 none [] t.nodes

/-- The fields that a dotted path names one after another. -/
def fieldPath (path : String) : List FieldId :=
  (Text.segments '.' path.toList).map fun s => ⟨String.ofList s⟩

/-- The numbered nodes on the way to the end of a dotted path. -/
def trail? (t : FormTree) (path : String) : Option (List (Nat × FieldNode)) :=
  FieldNode.trailFrom? 0 t.nodes (fieldPath path)

/-- The number of the node at the end of a dotted path. -/
def find? (t : FormTree) (path : String) : Option Nat := do
  let trail ← t.trail? path
  let (number, _) ← trail.getLast?
  pure number

end FormTree

end Fieldbook
