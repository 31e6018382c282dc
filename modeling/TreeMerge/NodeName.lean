import TreeMerge.Number.Decimal
import TreeMerge.Text.Basic

/-!
# Names of nodes

A node of a tree is known by its number. A correspondence that is handed over from outside may also
name what is no node of any tree, so the type of names is left open.

* `NodeName` : a type of names;
* the natural numbers, and the numbers of double precision, as names.
-/

namespace TreeMerge

/-- A type of names for nodes: every node has a name, and a name may also belong to no node. -/
class NodeName (ν : Type) where
  /-- The name of the node with a number. -/
  ofId : Nat → ν
  /-- The number of the node that has the name; a name that no node can have gives none. -/
  id? : ν → Option Nat
  /-- The name in messages. -/
  text : ν → Text

namespace NodeName

/-- A natural number names the node with that number. -/
instance : NodeName Nat where
  ofId := id
  id? := some
  text n := Nat.repr n

/-- A number of double precision names a node if it is a natural number. -/
instance : NodeName Number where
  ofId := Number.ofNat
  id? := Number.toNat?
  text n := n.text

@[simp] theorem ofId_nat (n : Nat) : (ofId n : Nat) = n := rfl

@[simp] theorem id?_nat (n : Nat) : id? n = some n := rfl

@[simp] theorem text_nat (n : Nat) : text n = Nat.repr n := rfl

end NodeName

end TreeMerge
