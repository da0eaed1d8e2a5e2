import JavaThrows.Text.Span

set_option autoImplicit false

/-!
# Nodes of a concrete tree

A concrete tree keeps every token and comment of a source as a node with its byte span. A node has
a kind, possibly the field that it fills in its parent, and its children in source order. Nodes
that stand for keywords and punctuation are not named.
-/

namespace JavaThrows.Cst

structure Node where
  kind : String
  field : Option String
  named : Bool
  span : Span
  children : List Node
deriving BEq, Repr, Inhabited

namespace Node

/-- The first child that fills the given field. -/
def childByField (n : Node) (field : String) : Option Node :=
  n.children.find? fun c => c.field == some field

/-- All children that fill the given field. -/
def childrenByField (n : Node) (field : String) : List Node :=
  n.children.filter fun c => c.field == some field

/-- The first child of the given kind. -/
def childOfKind (n : Node) (kind : String) : Option Node :=
  n.children.find? fun c => c.kind == kind

/-- The children that are neither keywords nor punctuation. -/
def namedChildren (n : Node) : List Node :=
  n.children.filter Node.named

/-- Whether the node and the given range have a byte in common. An empty range meets a node that
    holds it in its inside. -/
def overlaps (n : Node) (start stop : Nat) : Bool :=
  n.span.start < stop && n.span.stop > start

mutual
/-- All nodes of a kind in the tree, a node before its descendants. -/
def ofKind (kind : String) : Node → List Node
  | ⟨k, field, named, span, children⟩ =>
    if k == kind then ⟨k, field, named, span, children⟩ :: listOfKind kind children
    else listOfKind kind children

def listOfKind (kind : String) : List Node → List Node
  | [] => []
  | c :: cs => c.ofKind kind ++ listOfKind kind cs
end

/-- All method declarations of the tree. -/
def methods (n : Node) : List Node :=
  n.ofKind "method_declaration"

/-- The source text of a node, if its span cuts whole characters out of the source. -/
def text? (source : List Char) (n : Node) : Option String :=
  (Text.slice? source n.span).map String.ofList

end Node
end JavaThrows.Cst
