import FlatTree.Node

/-!
The heap of nodes. A node is known by its number, and everything that holds the number shares the
node: tables, listings and handles that callers keep. Every number has a node, a blank one where
none was ever made, so reading is total; making a node takes the first number that is free.
-/

namespace FlatTree

/-- What makes a node the same node. -/
structure NodeId where
  index : Nat
  deriving DecidableEq, Inhabited

structure Heap where
  nodes : List Node := []
  deriving DecidableEq, Inhabited

namespace Heap

/-- How many nodes were made. -/
def size (heap : Heap) : Nat := heap.nodes.length

/-- The node with a number. -/
def get (heap : Heap) (id : NodeId) : Node := heap.nodes[id.index]?.getD default

/-- The heap with another value for one node. -/
def set (heap : Heap) (id : NodeId) (node : Node) : Heap :=
  let blank := List.replicate (id.index + 1 - heap.size) default
  ⟨(heap.nodes ++ blank).set id.index node⟩

/-- Changes one node. -/
def update (heap : Heap) (id : NodeId) (change : Node → Node) : Heap :=
  heap.set id (change (heap.get id))

/-- A new node and the heap that holds it. Its time of creation counts the nodes made before. -/
def create (heap : Heap) (node : Node) : NodeId × Heap :=
  (⟨heap.size⟩, ⟨heap.nodes ++ [{ node with createdAt := heap.size }]⟩)

@[simp] theorem get_set_self (heap : Heap) (id : NodeId) (node : Node) :
    (heap.set id node).get id = node := by
  simp only [get, set]
  rw [List.getElem?_set_self]
  · rfl
  · simp only [List.length_append, List.length_replicate, size]
    omega

theorem get_set_of_ne (heap : Heap) {id other : NodeId} (node : Node) (different : other ≠ id) :
    (heap.set id node).get other = heap.get other := by
  have apart : id.index ≠ other.index := fun same => different (by cases id; cases other; simp_all)
  simp only [get, set, List.getElem?_set_ne apart]
  by_cases inside : other.index < heap.nodes.length
  · rw [List.getElem?_append_left inside]
  · have blank : heap.nodes[other.index]? = none := List.getElem?_eq_none (by omega)
    rw [List.getElem?_append_right (by omega), List.getElem?_replicate, blank]
    split <;> rfl

/-- Reading after a change: the changed node is new, every other one as before. -/
theorem get_set (heap : Heap) (id other : NodeId) (node : Node) :
    (heap.set id node).get other = if other = id then node else heap.get other := by
  split
  case isTrue same => rw [same, get_set_self]
  case isFalse different => exact get_set_of_ne heap node different

@[simp] theorem get_create_self (heap : Heap) (node : Node) :
    (heap.create node).2.get (heap.create node).1 = { node with createdAt := heap.size } := by
  simp [get, create, size]

theorem get_create_of_lt (heap : Heap) (node : Node) {id : NodeId}
    (made : id.index < heap.size) : (heap.create node).2.get id = heap.get id := by
  simp only [get, create]
  rw [List.getElem?_append_left made]

@[simp] theorem size_create (heap : Heap) (node : Node) :
    (heap.create node).2.size = heap.size + 1 := by
  simp [size, create]

end Heap

end FlatTree
