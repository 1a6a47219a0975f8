import Std.Data.TreeMap
import Std.Data.TreeSet

/-!
# Reference graphs

Which nodes of a graph of counted references are still in use. Every node has a count of all
references to it; what the nodes do not account for among themselves comes from outside. A node that
cannot be inspected at the moment is pinned: it is kept, and so is what it refers to, because its
references are then not accounted for.

* `Graph.roots`: the nodes that are pinned or referred to from outside.
* `Graph.mark`: what can be reached from a list of nodes.
* `Graph.survivors`: what can be reached from the roots.
-/

namespace Ecma51

/-- A graph of counted references. Nodes are numbers. -/
structure Graph where
  /-- The references that each node holds, with multiplicity; none for a pinned node. -/
  edges : Std.TreeMap Nat (List Nat)
  /-- The number of all references to a node. -/
  strong : Std.TreeMap Nat Nat
  /-- Nodes that cannot be inspected. -/
  pinned : List Nat

namespace Graph

/-- The nodes. -/
def nodes (g : Graph) : List Nat := g.edges.keys

/-- The references that a node holds. -/
def targets (g : Graph) (n : Nat) : List Nat := g.edges.getD n []

/-- How often each node is referred to by the given references. -/
def countReferences (refs : List Nat) : Std.TreeMap Nat Nat :=
  refs.foldl (fun m n => m.insert n (m.getD n 0 + 1)) ∅

/-- The references that nodes hold to nodes. -/
def internal (g : Graph) : Std.TreeMap Nat Nat :=
  countReferences (g.nodes.flatMap g.targets)

/-- The nodes that are kept for their own sake: pinned, or with more references than nodes hold. -/
def roots (g : Graph) : List Nat :=
  let inner := g.internal
  g.nodes.filter fun n => inner.getD n 0 < g.strong.getD n 0 || g.pinned.contains n

/-- All nodes that can be reached from the pending ones; the number bounds the steps. -/
def markUpTo (g : Graph) : Nat → List Nat → Std.TreeSet Nat → Std.TreeSet Nat
  | 0, _, seen => seen
  | _, [], seen => seen
  | fuel + 1, n :: rest, seen =>
    if seen.contains n || !g.edges.contains n then markUpTo g fuel rest seen
    else markUpTo g fuel (g.targets n ++ rest) (seen.insert n)

/-- A bound on the steps of marking: every reference is pending at most once. -/
def markBound (g : Graph) : Nat :=
  g.nodes.foldl (fun acc n => acc + (g.targets n).length + 1) 1

/-- All nodes that can be reached from a list of nodes. -/
def mark (g : Graph) (sources : List Nat) : Std.TreeSet Nat :=
  markUpTo g (g.markBound + sources.length) sources ∅

/-- The nodes that are still in use. -/
def survivors (g : Graph) : Std.TreeSet Nat := g.mark g.roots

end Graph

end Ecma51
