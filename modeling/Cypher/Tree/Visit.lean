import Cypher.Tree.Node

/-!
# Listing the nodes of a tree

A visitor that lists what it sees can be told to stop after a number of nodes, and not to look
inside certain nodes. Without either, it lists all nodes, each before the nodes inside it.
-/

namespace Cypher

namespace Node

/-- **A visitor that lists nodes**, stops at a number of them, and passes over the inside of those
that are hidden. -/
def lister (limit : Option Nat) (hides : Node → Bool) (seen : List Node) (n : Node) :
    List Node × Request :=
  let seen := seen ++ [n]
  (seen, if limit.any (· ≤ seen.length) then .stop else if hides n then .pass else .descend)

/-- The variable a node stands for, if it is one. -/
def asReference? (n : Node) : Option Ident := n.expression?.bind Expression.asVariable?

end Node

namespace Document

/-- The nodes that a listing visitor sees in a document, and whether it stopped. -/
def listing (document : Document) (limit : Option Nat) (hides : Node → Bool) : List Node × Bool :=
  Node.traverse (Node.lister limit hides) [] [.document document]

/-- **The variables used in a document**, in order. -/
def references (document : Document) : List Ident := document.nodes.filterMap Node.asReference?

end Document

end Cypher
