import FlatTree.Heap
import FlatTree.Failure

/-!
Listings: the sequences of nodes that a store answers with. A listing never changes; a caller pages
through it, picks elements out of it, or asks for places of a node. Bounds that count from the end
are negative, and bounds outside the sequence are moved to its ends.
-/

namespace FlatTree

structure Listing where
  nodes : List NodeId
  deriving DecidableEq, Inhabited

/-- Why a question about a listing has no answer. -/
inductive ListingFault where
  | negativePage
  | outOfRange
  /-- A place that fits no signed word of 64 bits. -/
  | unaddressable
  | zeroStep
  /-- The node is not in the part asked for. -/
  | notListed
  deriving DecidableEq

def ListingFault.failure : ListingFault → Failure
  | .negativePage => .ofMessage .value "offset and count must be non-negative"
  | .outOfRange => .ofMessage .index "tuple index out of range"
  | .unaddressable => .ofMessage .index "cannot fit 'int' into an index-sized integer"
  | .zeroStep => .ofMessage .value "slice step cannot be zero"
  | .notListed => ⟨.value, []⟩

namespace Listing

def length (listing : Listing) : Nat := listing.nodes.length

/-- Up to `count` nodes from `offset` on; fewer mark the end of the listing. -/
def page (listing : Listing) (offset count : Int) : Except ListingFault (List NodeId) :=
  if offset < 0 ∨ count < 0 then .error .negativePage
  else .ok ((listing.nodes.drop offset.toNat).take count.toNat)

/-- The place that a bound means in a sequence of a length: a negative one counts from the end. -/
def fromEnd (length : Nat) (bound : Int) : Int :=
  if bound < 0 then bound + length else bound

/-- The node at a place. -/
def item (listing : Listing) (place : Int) : Except ListingFault NodeId :=
  if ¬FitsWord place then .error .unaddressable
  else
    let index := fromEnd listing.length place
    if index < 0 then .error .outOfRange
    else
      match listing.nodes[index.toNat]? with
      | some id => .ok id
      | none => .error .outOfRange

/-- The places that a slice visits: from `start` on in steps of `step` and before `stop`, where a
bound that is left out is the end of the sequence the steps come from or go to. -/
def slicePlaces (length : Nat) (start stop : Option Int) (step : Int) : List Nat :=
  let clamp (low high : Int) (bound : Int) := max low (min high (fromEnd length bound))
  if 0 < step then
    let first := (start.map (clamp 0 length)).getD 0
    let last := (stop.map (clamp 0 length)).getD length
    let count := ((last - first + step - 1) / step).toNat
    (List.range count).map fun (turn : Nat) => (first + turn * step).toNat
  else
    let first := (start.map (clamp (-1) (length - 1))).getD (length - 1)
    let last := (stop.map (clamp (-1) (length - 1))).getD (-1)
    let count := ((first - last - step - 1) / -step).toNat
    (List.range count).map fun (turn : Nat) => (first + turn * step).toNat

/-- The nodes of a slice. A step that is left out is one. -/
def slice (listing : Listing) (start stop step : Option Int) :
    Except ListingFault (List NodeId) :=
  let step := step.getD 1
  if step = 0 then .error .zeroStep
  else .ok ((slicePlaces listing.length start stop step).filterMap (listing.nodes[·]?))

def contains (listing : Listing) (id : NodeId) : Bool := listing.nodes.contains id

/-- How often a node is listed. -/
def count (listing : Listing) (id : NodeId) : Nat := listing.nodes.count id

/-- The first place of a node from `start` on and before `stop`. A negative `start` that reaches
before the sequence means its beginning. -/
def index (listing : Listing) (id : NodeId) (start : Int) (stop : Option Int) :
    Except ListingFault Nat :=
  let first := max 0 (fromEnd listing.length start)
  let last := (stop.map (fromEnd listing.length)).getD listing.length
  let found := (List.range listing.length).find? fun (place : Nat) =>
    first ≤ place && place < last && listing.nodes[place]? == some id
  match found with
  | some place => .ok place
  | none => .error .notListed

end Listing

end FlatTree
