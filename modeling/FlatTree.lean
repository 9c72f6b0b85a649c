import FlatTree.Session
import FlatTree.Role
import FlatTree.Proofs.LiveTable
import FlatTree.Proofs.Query
import FlatTree.Proofs.Plan
import FlatTree.Proofs.Atomicity
import FlatTree.Proofs.PathLaws
import FlatTree.Proofs.Relocation
import FlatTree.Proofs.Guards
import FlatTree.Proofs.Representation
import FlatTree.Proofs.Segments
import FlatTree.Proofs.Tree
import FlatTree.Proofs.Hierarchy
import FlatTree.Proofs.Refinement
import FlatTree.Proofs.Mirror
import FlatTree.Proofs.Chains
import FlatTree.Proofs.Area
import FlatTree.Proofs.Commons
import FlatTree.Proofs.Twin
import FlatTree.Proofs.Likeness
import FlatTree.Proofs.Purpose
import FlatTree.Proofs.Separation
import FlatTree.Proofs.Endless
import FlatTree.Proofs.Confinement
import FlatTree.Proofs.Succession
import FlatTree.Proofs.Ancestry
import FlatTree.Proofs.Enclosure
import FlatTree.Proofs.Catalogue
import FlatTree.Proofs.Stranding
import FlatTree.Proofs.Staleness
import FlatTree.Proofs.Opening
import FlatTree.Proofs.Course
import FlatTree.Proofs.Ownership
import FlatTree.Proofs.Hollow
import FlatTree.Proofs.Records
import FlatTree.Proofs.Rekeying
import FlatTree.Proofs.Scopes
import FlatTree.Proofs.Rearrangement
import FlatTree.Proofs.Order
import FlatTree.Proofs.Destination
import FlatTree.Proofs.Descent
import FlatTree.Proofs.Hops
import FlatTree.Proofs.Overlay
import FlatTree.Proofs.Naming
import FlatTree.Proofs.Visibility
import FlatTree.Proofs.Transparency
import FlatTree.Proofs.Undoing
import FlatTree.Proofs.Withdrawal
import FlatTree.Proofs.Reading
import FlatTree.Proofs.Paging
import FlatTree.Proofs.Acceptance
import FlatTree.Proofs.Endless
