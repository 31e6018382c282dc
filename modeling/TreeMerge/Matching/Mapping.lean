import TreeMerge.Fault
import TreeMerge.NodeName

/-!
# Correspondences between two trees

A mapping links nodes of a source tree with nodes of a destination tree, each at most once. Nodes
are linked by their names; a correspondence that is computed here uses their numbers.

* `Mapping.dst?`, `Mapping.src?` : the counterpart of a node;
* `Mapping.link`, `Mapping.linkAll` : add links, refused where a node is linked already;
* `Mapping.link_eq_ok`, `Mapping.dst?_link` : what linking does;
* `Mapping.Valid` : what a correspondence of two trees has to satisfy.
-/

namespace TreeMerge

/-- Linked pairs of a source and a destination node, in the order of linking. -/
structure Mapping (ν : Type) where
  pairs : List (ν × ν) := []
  deriving DecidableEq, Repr

namespace Mapping

variable {ν : Type}

/-- No links. -/
def empty : Mapping ν := ⟨[]⟩

/-- The number of links. -/
def size (m : Mapping ν) : Nat :=
  m.pairs.length

variable [DecidableEq ν]

/-- The destination linked with a source node. -/
def dst? (m : Mapping ν) (src : ν) : Option ν :=
  (m.pairs.find? fun p => p.1 == src).map Prod.snd

/-- The source linked with a destination node. -/
def src? (m : Mapping ν) (dst : ν) : Option ν :=
  (m.pairs.find? fun p => p.2 == dst).map Prod.fst

/-- Whether a source node is linked. -/
def hasSrc (m : Mapping ν) (src : ν) : Bool :=
  (m.dst? src).isSome

/-- Whether a destination node is linked. -/
def hasDst (m : Mapping ν) (dst : ν) : Bool :=
  (m.src? dst).isSome

/-- Link two nodes. A source that is linked is reported before a destination that is. -/
def link [NodeName ν] (m : Mapping ν) (src dst : ν) : Except Fault (Mapping ν) :=
  match m.dst? src, m.src? dst with
  | some d, _ => .error (.sourceTaken (NodeName.text src) (NodeName.text d))
  | none, some s => .error (.destinationTaken (NodeName.text dst) (NodeName.text s))
  | none, none => .ok ⟨m.pairs ++ [(src, dst)]⟩

/-- Link pairs one after the other. -/
def linkAll [NodeName ν] (m : Mapping ν) (pairs : List (ν × ν)) : Except Fault (Mapping ν) :=
  pairs.foldlM (fun m p => m.link p.1 p.2) m

theorem dst?_eq_none {m : Mapping ν} {src : ν} : m.dst? src = none ↔ ∀ p ∈ m.pairs, p.1 ≠ src := by
  simp [dst?, List.find?_eq_none]

theorem src?_eq_none {m : Mapping ν} {dst : ν} : m.src? dst = none ↔ ∀ p ∈ m.pairs, p.2 ≠ dst := by
  simp [src?, List.find?_eq_none]

/-- A link is made exactly when both nodes are free, and then it is the last one. -/
theorem link_eq_ok [NodeName ν] {m m' : Mapping ν} {src dst : ν} :
    m.link src dst = .ok m' ↔
      m.dst? src = none ∧ m.src? dst = none ∧ m'.pairs = m.pairs ++ [(src, dst)] := by
  unfold link
  split
  · simp_all
  · simp_all
  · rename_i h₁ h₂
    obtain ⟨pairs⟩ := m'
    simp [h₁, h₂, eq_comm]

/-- Linking two nodes gives the source its counterpart and changes no other. -/
theorem dst?_link [NodeName ν] {m m' : Mapping ν} {src dst : ν} (h : m.link src dst = .ok m')
    (x : ν) :
    m'.dst? x = if x = src then some dst else m.dst? x := by
  obtain ⟨hs, -, hp⟩ := link_eq_ok.1 h
  by_cases hx : x = src
  · subst hx
    have hf : m.pairs.find? (fun p => p.1 == x) = none := by simpa [dst?] using hs
    simp [dst?, hp, List.find?_append, hf]
  · have hb : (src == x) = false := by simpa using fun e : src = x => hx e.symm
    simp [dst?, hp, List.find?_append, hx, hb]

/-- A correspondence of two trees: nodes of the trees on either side, none of them twice. -/
structure Valid (m : Mapping Nat) (srcSize dstSize : Nat) : Prop where
  src_lt : ∀ p ∈ m.pairs, p.1 < srcSize
  dst_lt : ∀ p ∈ m.pairs, p.2 < dstSize
  src_nodup : (m.pairs.map Prod.fst).Nodup
  dst_nodup : (m.pairs.map Prod.snd).Nodup

end Mapping

end TreeMerge
