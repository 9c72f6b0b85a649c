import FlatTree.Proofs.Abreast
import FlatTree.Proofs.Catalogue
import FlatTree.Proofs.Likeness
import FlatTree.Proofs.Rekeying

/-!
Two stores with the same entries in another order (`State.Corresponds`). Their nodes
correspond, and corresponding nodes have the same path as well, but for those whose path
hangs on the order: a rename that moves a file under several of its keys gives it the
last of the new keys as its path. Such a file is loose, and its paths are kept track of.
All that a plan finds out is then the same on both stores but for two things: which path a
loose file has when it is in the way of a directory, and which of several occupied keys a
rename meets first (`Fault.Akin`).
-/

namespace FlatTree

/-- The same but for the path, the time of creation, and how the last transfer ended. -/
structure Node.Resembles (node other : Node) : Prop where
  isDirectory : node.isDirectory = other.isDirectory
  target : node.target = other.target
  content : node.content = other.content

/-- States with the same live entries in any order, up to a correspondence of the nodes.
Corresponding nodes have one path, or each has one of the paths that are loose for it. -/
structure State.Corresponds (same : NodeId → NodeId → Prop) (loose : NodeId → Path → Prop)
    (first second : State) : Prop where
  live : ∀ path, Option.Rel same (first.volume.table.live? path)
    (second.volume.table.live? path)
  biunique : Relator.BiUnique same
  nodes : ∀ a b, same a b → (first.node a).Resembles (second.node b)
  paths : ∀ a b, same a b → (first.node a).path = (second.node b).path ∨
    loose a (first.node a).path ∧ loose a (second.node b).path

/-- Corresponding states of stores that keep to what every store keeps to. Only regular
files are loose. -/
structure State.Peers (same : NodeId → NodeId → Prop) (loose : NodeId → Path → Prop)
    (first second : State) : Prop extends first.Corresponds same loose second where
  sound : first.volume.Sound first.heap
  sound' : second.volume.Sound second.heap
  settings : first.volume.settings = second.volume.settings
  root : same first.volume.root second.volume.root
  made : ∀ a b, same a b → a.index < first.heap.size ∧ b.index < second.heap.size
  files : ∀ a path, loose a path →
    a.index < first.heap.size ∧ (first.node a).isFile = true

/-- A rename takes a carried key to a path that has a node already. -/
def Call.Clashes (call : Call) (state : State) (path : Path) : Prop :=
  call.Commands .rename ∧
    ∃ key ∈ state.volume.carried state.heap call.request.path,
      key.rebase call.request.path call.request.target = path ∧
        state.volume.occupied path = true

/-- A rename finds no new key occupied below its target when each is free. -/
theorem Volume.find?_moves_eq_none {volume : Volume} {id : NodeId} {isDirectory : Bool}
    {source target : Path} :
    ((volume.moves id isDirectory source target).tail.find?
        fun move => volume.occupied move.target) = none ↔
      (isDirectory = true → ∀ key, key.Under source →
        (∃ held, volume.table.live? key = some held) →
          volume.occupied (key.rebase source target) = false) := by
  cases isDirectory with
  | false => simp [moves]
  | true =>
      simp only [moves, below, if_true, List.tail_cons, List.find?_eq_none, List.mem_map,
        List.mem_filter, decide_eq_true_eq, Bool.not_eq_true, true_implies]
      constructor
      · rintro hall key hunder ⟨held, hlive⟩
        exact hall _ ⟨(key, held), ⟨Table.mem_live.mpr hlive, hunder⟩, rfl⟩
      · rintro hall _ ⟨⟨key, held⟩, ⟨member, hunder⟩, rfl⟩
        exact hall key hunder ⟨held, Table.mem_live.mp member⟩

/-- The new key that a rename finds occupied is one that it clashes with. -/
theorem Call.clashes_of_find? {call : Call} {state : State} {held : NodeId} {move : Move}
    (hcommand : call.Commands .rename) (hapart : call.request.path ≠ Path.root)
    (hsource : state.volume.live? call.request.path = some held)
    (hfound : (state.volume.moves held (state.heap.get held).isDirectory call.request.path
      call.request.target).tail.find? (fun move => state.volume.occupied move.target) =
        some move) : call.Clashes state move.target := by
  have member := List.mem_of_mem_tail (List.mem_of_find?_eq_some hfound)
  obtain ⟨hcarried, -⟩ := Volume.carried_of_mem_moves hapart hsource member
  have hoccupied := List.find?_some hfound
  exact ⟨hcommand, move.source, hcarried, (Volume.target_of_mem_moves member).symm, hoccupied⟩

/-- Faults of one cause that name one path, or each the path that a loose node has in its
state, or each a path that a rename finds occupied. -/
inductive Fault.Akin (call : Call) (same : NodeId → NodeId → Prop)
    (loose : NodeId → Path → Prop) (first second : State) : Fault → Fault → Prop
  | refl (fault : Fault) : Akin call same loose first second fault fault
  | notADirectory {a b} (h : same a b) (hfirst : loose a (first.node a).path)
      (hsecond : loose a (second.node b).path) :
      Akin call same loose first second (.notADirectory (first.node a).path)
        (.notADirectory (second.node b).path)
  | parentNotADirectory {a b} (h : same a b) (hfirst : loose a (first.node a).path)
      (hsecond : loose a (second.node b).path) :
      Akin call same loose first second (.parentNotADirectory (first.node a).path)
        (.parentNotADirectory (second.node b).path)
  | alreadyExists {path other} (hfirst : call.Clashes first path)
      (hsecond : call.Clashes second other) :
      Akin call same loose first second (.alreadyExists path) (.alreadyExists other)

/-- Changes that differ in the numbers of nodes, in the paths and times of nodes, and in
the order of moves only. -/
inductive Change.Kindred (same : NodeId → NodeId → Prop) (first second : State) :
    Change → Change → Prop
  | keep : Kindred same first second .keep .keep
  | rewrite {a b} (known : same a b) (content : Bytes) :
      Kindred same first second (.rewrite a { first.node a with content })
        (.rewrite b { second.node b with content })
  | add (node : Node) (record : Record) :
      Kindred same first second (.add node record) (.add node record)
  | share {target path a b} (known : same a b) :
      Kindred same first second (.share target path a) (.share target path b)
  | move {source target moves others} :
      Kindred same first second (.move source target moves) (.move source target others)
  | remove {path} : Kindred same first second (.remove path) (.remove path)

/-- Plans that end in the same reply and the same change, up to a correspondence of the
nodes. -/
structure State.Likewise (same : NodeId → NodeId → Prop) (first second : State)
    (planned other : Reply × Change) : Prop where
  change : Change.Kindred same first second planned.2 other.2
  reply : Reply.Alike (planned.2.grown same first second) planned.1 other.1

namespace State.Corresponds

variable {same : NodeId → NodeId → Prop} {loose : NodeId → Path → Prop}
  {first second : State} {path : Path} {a b : NodeId}
  (h : first.Corresponds same loose second)

include h

/-- Under a key both have a node or neither has. -/
theorem table_cases (path : Path) :
    (first.volume.table.live? path = none ∧ second.volume.table.live? path = none) ∨
      ∃ a b, first.volume.table.live? path = some a ∧
        second.volume.table.live? path = some b ∧ same a b := by
  have hlive := h.live path
  generalize first.volume.table.live? path = held, second.volume.table.live? path = other
    at hlive
  cases hlive with
  | none => exact Or.inl ⟨rfl, rfl⟩
  | some hsame => exact Or.inr ⟨_, _, rfl, rfl, hsame⟩

theorem live?_iff (path : Path) : (∃ a, first.volume.table.live? path = some a) ↔
    ∃ b, second.volume.table.live? path = some b := by
  rcases h.table_cases path with ⟨hfirst, hsecond⟩ | ⟨a, b, hfirst, hsecond, -⟩
  · simp [hfirst, hsecond]
  · simp [hfirst, hsecond]

/-- A key that has a node in the one state has the corresponding one in the other. -/
theorem twin (hlive : first.volume.table.live? path = some a) :
    ∃ b, second.volume.table.live? path = some b ∧ same a b := by
  rcases h.table_cases path with ⟨hnone, -⟩ | ⟨held, b, hheld, hsecond, hsame⟩
  · rw [hlive] at hnone
    cases hnone
  · rw [hlive] at hheld
    cases hheld
    exact ⟨b, hsecond, hsame⟩

/-- Corresponding nodes stand under the same keys. -/
theorem held_iff (hsame : same a b) : first.volume.table.live? path = some a ↔
    second.volume.table.live? path = some b := by
  constructor
  · intro hfirst
    obtain ⟨twin, htwin, hpair⟩ := h.twin hfirst
    rw [htwin, h.biunique.2 hpair hsame]
  · intro hsecond
    obtain ⟨held, hheld⟩ := (h.live?_iff path).mpr ⟨b, hsecond⟩
    obtain ⟨twin, htwin, hpair⟩ := h.twin hheld
    rw [hsecond] at htwin
    cases htwin
    rw [hheld, h.biunique.1 hpair hsame]

end State.Corresponds

namespace State.Peers

variable {same : NodeId → NodeId → Prop} {loose : NodeId → Path → Prop}
  {first second : State} {call : Call} {path source target : Path} {a b : NodeId}
  (h : Peers same loose first second)

include h

theorem isDirectory_eq (hsame : same a b) :
    (first.heap.get a).isDirectory = (second.heap.get b).isDirectory :=
  (h.nodes a b hsame).isDirectory

theorem target_eq (hsame : same a b) :
    (first.heap.get a).target = (second.heap.get b).target :=
  (h.nodes a b hsame).target

/-- Peers have corresponding nodes under every path, the root included. -/
theorem abreast : Abreast (fun _ => True) same first second where
  settings := h.settings
  live := by
    intro path _
    by_cases hroot : path = Path.root
    · rw [hroot, Volume.live?_root, Volume.live?_root]
      exact .some h.root
    · rw [Volume.live?_of_ne_root hroot, Volume.live?_of_ne_root hroot]
      exact h.live path
  target := fun _ _ hsame => h.target_eq hsame
  leads := fun _ _ _ _ => trivial

/-- Only regular files may differ in their paths. -/
theorem path_eq (hsame : same a b) (hfile : (first.heap.get a).isFile = false) :
    (first.heap.get a).path = (second.heap.get b).path := by
  rcases h.paths a b hsame with hpath | ⟨hloose, -⟩
  · exact hpath
  · have hcontra : (first.heap.get a).isFile = true := (h.files a _ hloose).2
    rw [hfile] at hcontra
    cases hcontra

theorem live?_cases (path : Path) :
    (first.volume.live? path = none ∧ second.volume.live? path = none) ∨
      ∃ a b, first.volume.live? path = some a ∧ second.volume.live? path = some b ∧
        same a b :=
  h.abreast.live?_cases trivial

theorem path_eq_of_directory (hsame : same a b)
    (hdirectory : (first.heap.get a).isDirectory = true) :
    (first.heap.get a).path = (second.heap.get b).path :=
  h.path_eq hsame (by simp [Node.isFile, hdirectory])

theorem children_eq (directory : Path) :
    first.volume.children directory = second.volume.children directory := by
  refine Path.sort_eq_of_mem_iff (first.volume.table.nodup_live.filter _)
    (Path.sort_pairwise _) (second.volume.nodup_children directory) fun path => ?_
  have hfirst : path ∈ first.volume.children directory ↔ _ := Volume.mem_children
  rw [Volume.children, Path.mem_sort] at hfirst
  rw [Volume.mem_children, hfirst, h.live?_iff path]

theorem listing_alike (directory : Path) :
    List.Forall₂ same
      ((first.volume.children directory).filterMap first.volume.table.live?)
      ((second.volume.children directory).filterMap second.volume.table.live?) := by
  rw [h.children_eq directory]
  refine List.rel_filterMap (R := Eq) ?_ (List.forall₂_refl _)
  rintro path _ rfl
  exact h.live path

theorem below_eq_nil_iff (path : Path) :
    first.volume.below path = [] ↔ second.volume.below path = [] := by
  have hnone : ∀ volume : Volume, volume.below path = [] ↔
      ∀ key, key.Under path → ¬∃ id, volume.table.live? key = some id := by
    intro volume
    unfold Volume.below
    rw [List.filter_eq_nil_iff]
    constructor
    · rintro hall key hunder ⟨id, hlive⟩
      exact hall (key, id) (Table.mem_live.mpr hlive) (decide_eq_true hunder)
    · rintro hall ⟨key, id⟩ member hunder
      exact hall key (of_decide_eq_true hunder) ⟨id, Table.mem_live.mp member⟩
  rw [hnone, hnone]
  exact forall₂_congr fun key _ => not_congr (h.live?_iff key)

/-- A rename of the same source takes the same keys along. -/
theorem carried_eq (source : Path) :
    first.volume.carried first.heap source = second.volume.carried second.heap source := by
  have hkind : (first.volume.live? source).any (fun id => (first.heap.get id).isDirectory) =
      (second.volume.live? source).any fun id => (second.heap.get id).isDirectory := by
    rcases h.live?_cases source with
      ⟨hfirst, hsecond⟩ | ⟨a, b, hfirst, hsecond, hsame⟩
    · rw [hfirst, hsecond]
      rfl
    · rw [hfirst, hsecond]
      exact h.isDirectory_eq hsame
  ext key
  simp only [Volume.carried, Volume.Carries, Set.mem_ofPred_eq, hkind,
    Option.isSome_iff_exists, h.live?_iff key]

/-- Where a fault names a node that is no directory, peers name one path or the paths of a
loose node. -/
theorem akin_notADirectory (call : Call) (hsame : same a b) :
    Fault.Akin call same loose first second (.notADirectory (first.heap.get a).path)
      (.notADirectory (second.heap.get b).path) := by
  rcases h.paths a b hsame with hpath | ⟨hfirst, hsecond⟩
  · have hpath' : (first.heap.get a).path = (second.heap.get b).path := hpath
    rw [hpath']
    exact .refl _
  · exact .notADirectory hsame hfirst hsecond

theorem akin_parentNotADirectory (call : Call) (hsame : same a b) :
    Fault.Akin call same loose first second (.parentNotADirectory (first.heap.get a).path)
      (.parentNotADirectory (second.heap.get b).path) := by
  rcases h.paths a b hsame with hpath | ⟨hfirst, hsecond⟩
  · have hpath' : (first.heap.get a).path = (second.heap.get b).path := hpath
    rw [hpath']
    exact .refl _
  · exact .parentNotADirectory hsame hfirst hsecond

/-! ### Questions -/

theorem lookUp (path : Path) : Paired (Fault.Akin call same loose first second) same
    first second (Query.lookUp path) (Query.lookUp path) :=
  (h.abreast.lookUp trivial).paired .refl

/-- What a look-up finds is what the states have under the path. -/
theorem lookUp_held (path : Path) : Paired (Fault.Akin call same loose first second)
    (fun a b => same a b ∧ first.volume.live? path = some a ∧
      second.volume.live? path = some b) first second (Query.lookUp path)
        (Query.lookUp path) := by
  unfold Paired Query.lookUp
  rcases h.live?_cases path with ⟨hfirst, hsecond⟩ | ⟨a, b, hfirst, hsecond, hsame⟩
  · rw [hfirst, hsecond]
    exact .refl _
  · rw [hfirst, hsecond]
    exact ⟨hsame, rfl, rfl⟩

theorem resolve (path : Path) : Paired (Fault.Akin call same loose first second) same
    first second (Query.resolve path) (Query.resolve path) :=
  (h.abreast.resolve trivial).paired .refl

theorem requireFree (path : Path) : Paired (Fault.Akin call same loose first second)
    (fun _ _ => True) first second (Plan.requireFree path) (Plan.requireFree path) :=
  (h.abreast.requireFree trivial).paired .refl

theorem requireParent (path : Path) : Paired (Fault.Akin call same loose first second)
    (fun _ _ => True) first second (Plan.requireParent path) (Plan.requireParent path) := by
  unfold Plan.requireParent
  refine Paired.bind (h.resolve path.parent) ?_
  intro a b hsame
  apply Paired.node_bind
  rw [h.isDirectory_eq hsame]
  split
  · exact Paired.pure trivial
  · exact Paired.refuse (h.akin_notADirectory call hsame)

theorem view (hsame : same a b) : Paired (Fault.Akin call same loose first second) same
    first second (Plan.view a) (Plan.view b) := by
  unfold Plan.view Node.viewFault?
  apply Paired.node_bind
  cases hdirectory : (first.heap.get a).isDirectory with
  | true =>
      rw [← h.isDirectory_eq hsame, ← h.path_eq_of_directory hsame hdirectory, hdirectory]
      exact Paired.refuse (.refl _)
  | false =>
      rw [← h.isDirectory_eq hsame, hdirectory]
      exact Paired.pure hsame

theorem openToRead (path : Path) : Paired (Fault.Akin call same loose first second)
    (Likewise same first second) first second (Plan.openToRead path)
      (Plan.openToRead path) := by
  unfold Plan.openToRead
  refine Paired.bind (h.resolve path) ?_
  intro a b hsame
  refine Paired.bind (h.view hsame) ?_
  intro a b hsame
  exact Paired.pure ⟨.keep, .node hsame⟩

theorem createFile (path : Path) : Paired (Fault.Akin call same loose first second)
    (Likewise same first second) first second (Plan.createFile path)
      (Plan.createFile path) := by
  unfold Plan.createFile
  refine Paired.bind (h.lookUp path.parent) ?_
  intro a b hsame
  apply Paired.node_bind
  rw [h.isDirectory_eq hsame]
  split
  · exact ⟨.add _ _, .node (Or.inr ⟨rfl, rfl⟩)⟩
  · exact Paired.refuse (h.akin_parentNotADirectory call hsame)

theorem openToWrite (path : Path) : Paired (Fault.Akin call same loose first second)
    (Likewise same first second) first second (Plan.openToWrite path)
      (Plan.openToWrite path) := by
  have hseek : Paired (Fault.Akin call same loose first second) (Option.Rel same)
      first second (Query.seek path) (Query.seek path) := h.abreast.live path trivial
  have hview : ∀ a b, same a b →
      Paired (Fault.Akin call same loose first second) (Likewise same first second)
        first second (do return (Reply.node (← Plan.view a), Change.keep))
          (do return (Reply.node (← Plan.view b), Change.keep)) := by
    intro a b hsame
    refine Paired.bind (h.view hsame) ?_
    intro a b hsame
    exact Paired.pure ⟨.keep, .node hsame⟩
  unfold Plan.openToWrite
  refine Paired.bind hseek ?_
  intro found other hfound
  cases hfound with
  | none => exact h.createFile path
  | some hsame =>
      apply Paired.node_bind
      rw [h.abreast.isLink_eq hsame]
      split
      · exact Paired.bind (h.resolve path) hview
      · exact Paired.bind (Paired.pure hsame) hview

theorem list (method : Method) (path : Path) :
    Paired (Fault.Akin call same loose first second) (Likewise same first second)
      first second (Plan.list method path) (Plan.list method path) := by
  unfold Plan.list
  refine Paired.bind (h.resolve path) ?_
  intro a b hsame
  cases method with
  | list =>
      apply Paired.node_bind
      cases hdirectory : (first.heap.get a).isDirectory with
      | true =>
          rw [← h.isDirectory_eq hsame, ← h.path_eq_of_directory hsame hdirectory, hdirectory]
          apply Paired.volume_bind
          exact Paired.pure ⟨.keep, .listing (h.listing_alike _)⟩
      | false =>
          rw [← h.isDirectory_eq hsame, hdirectory]
          exact Paired.refuse (.refl _)
  | stat | readlink => exact Paired.pure ⟨.keep, .listing (.cons hsame .nil)⟩
  | setstat | rename | rmdir | remove | mkdir | link | symlink | get | put | openFile =>
      exact Paired.refuse (.refl _)

theorem lstat (path : Path) : Paired (Fault.Akin call same loose first second)
    (Likewise same first second) first second (Plan.lstat path) (Plan.lstat path) := by
  unfold Plan.lstat
  refine Paired.bind (h.lookUp path) ?_
  intro a b hsame
  exact Paired.pure ⟨.keep, .listing (.cons hsame .nil)⟩

/-- Cutting corresponding nodes gives them the same content, or is refused alike: what is
no regular file has the same path. -/
theorem truncate_alike (hsame : same a b) (size : Int) :
    Matches Eq (fun cut after => ∃ content, cut = { first.node a with content } ∧
        after = { second.node b with content })
      ((first.heap.get a).truncate size) ((second.heap.get b).truncate size) := by
  have hcontent : (first.heap.get a).content = (second.heap.get b).content :=
    (h.nodes a b hsame).content
  have hpath := h.path_eq hsame
  unfold Node.truncate Node.size
  rw [← h.isDirectory_eq hsame, ← h.abreast.isLink_eq hsame, ← hcontent]
  split
  · exact rfl
  · split
    · rename_i hdirectory
      rw [hpath (by simp [Node.isFile, hdirectory])]
      exact rfl
    · split
      · rename_i hlink
        rw [hpath (by simp [Node.isFile, hlink])]
        exact rfl
      · split
        · exact rfl
        · exact ⟨_, rfl, by rw [h.isDirectory_eq hsame]; rfl⟩

theorem setstat (request : Request) : Paired (Fault.Akin call same loose first second)
    (Change.Kindred same first second) first second (Plan.setstat request)
      (Plan.setstat request) := by
  unfold Plan.setstat
  refine Paired.bind (h.resolve request.path) ?_
  intro a b hsame
  split
  · split
    · apply Paired.node_bind
      rename_i size _
      have hcut : Parallel (fun cut after => ∃ content,
          cut = { first.node a with content } ∧ after = { second.node b with content })
            first second (Query.orRefuse ((first.heap.get a).truncate size))
            (Query.orRefuse ((second.heap.get b).truncate size)) :=
        h.truncate_alike hsame size
      refine Paired.bind (hcut.paired .refl) ?_
      rintro cut after ⟨content, rfl, rfl⟩
      exact Paired.pure (.rewrite hsame content)
    · exact Paired.refuse (.refl _)
  · exact Paired.pure .keep

/-- A rename finds some new key occupied in both stores or in neither. -/
theorem find?_moves_eq_none_iff (hsame : same a b) (source target : Path) :
    ((first.volume.moves a (first.heap.get a).isDirectory source target).tail.find?
        fun move => first.volume.occupied move.target) = none ↔
      ((second.volume.moves b (second.heap.get b).isDirectory source target).tail.find?
        fun move => second.volume.occupied move.target) = none := by
  have hoccupied : ∀ path, first.volume.occupied path = second.volume.occupied path :=
    fun path => h.abreast.occupied_eq trivial
  rw [Volume.find?_moves_eq_none, Volume.find?_moves_eq_none, h.isDirectory_eq hsame]
  simp only [h.live?_iff, hoccupied]

theorem rename (hcommand : call.Commands .rename) :
    Paired (Fault.Akin call same loose first second) (Change.Kindred same first second)
      first second (Plan.rename call.request.path call.request.target)
        (Plan.rename call.request.path call.request.target) := by
  unfold Plan.rename
  split
  · exact Paired.refuse (.refl _)
  · rename_i hapart
    refine Paired.bind (h.lookUp_held call.request.path) ?_
    rintro a b ⟨hsame, hfirst, hsecond⟩
    refine Paired.bind (h.requireFree call.request.target) ?_
    intro _ _ _
    apply Paired.node_bind
    have hfind := h.find?_moves_eq_none_iff hsame call.request.path call.request.target
    simp only [h.isDirectory_eq hsame] at hfind ⊢
    split
    · exact Paired.refuse (.refl _)
    · refine Paired.bind (h.requireParent call.request.target) ?_
      intro _ _ _
      apply Paired.volume_bind
      apply Paired.volume_bind
      have hclash : ∀ move, (first.volume.moves a (second.heap.get b).isDirectory
          call.request.path call.request.target).tail.find?
            (fun move => first.volume.occupied move.target) = some move →
          call.Clashes first move.target := by
        rw [← h.isDirectory_eq hsame]
        exact fun move => Call.clashes_of_find? hcommand hapart hfirst
      have hclash' : ∀ move, (second.volume.moves b (second.heap.get b).isDirectory
          call.request.path call.request.target).tail.find?
            (fun move => second.volume.occupied move.target) = some move →
          call.Clashes second move.target :=
        fun move => Call.clashes_of_find? hcommand hapart hsecond
      generalize List.find? _ (first.volume.moves _ _ _ _).tail = found,
        List.find? _ (second.volume.moves _ _ _ _).tail = other at hfind hclash hclash'
      cases found with
      | none =>
          rw [hfind.mp rfl]
          exact Paired.pure .move
      | some move =>
          cases other with
          | none => cases hfind.mpr rfl
          | some twin =>
              exact Paired.refuse (.alreadyExists (hclash move rfl) (hclash' twin rfl))

theorem remove (path : Path) : Paired (Fault.Akin call same loose first second)
    (Change.Kindred same first second) first second (Plan.remove path)
      (Plan.remove path) := by
  unfold Plan.remove
  split
  · exact Paired.refuse (.refl _)
  · refine Paired.bind (h.resolve path.parent) ?_
    intro a b hsame
    apply Paired.node_bind
    apply Paired.volume_bind
    simp only [h.isDirectory_eq hsame, ne_eq, h.below_eq_nil_iff path]
    split
    · exact Paired.refuse (.refl _)
    · exact Paired.pure .remove

theorem mkdir (path : Path) : Paired (Fault.Akin call same loose first second)
    (Change.Kindred same first second) first second (Plan.mkdir path)
      (Plan.mkdir path) := by
  unfold Plan.mkdir
  refine Paired.bind (h.requireParent path) ?_
  intro _ _ _
  refine Paired.bind (h.requireFree path) ?_
  intro _ _ _
  exact Paired.pure (.add _ _)

theorem link (path target : Path) : Paired (Fault.Akin call same loose first second)
    (Change.Kindred same first second) first second (Plan.link path target)
      (Plan.link path target) := by
  unfold Plan.link
  refine Paired.bind (h.resolve path) ?_
  intro a b hsame
  apply Paired.node_bind
  rw [h.isDirectory_eq hsame]
  split
  · exact Paired.refuse (.refl _)
  · refine Paired.bind (h.requireFree target) ?_
    intro _ _ _
    refine Paired.bind (h.requireParent target) ?_
    intro _ _ _
    exact Paired.pure (.share hsame)

theorem symlink (path target : Path) : Paired (Fault.Akin call same loose first second)
    (Change.Kindred same first second) first second (Plan.symlink path target)
      (Plan.symlink path target) := by
  unfold Plan.symlink
  refine Paired.bind (h.resolve path) ?_
  intro a b hsame
  refine Paired.bind (h.requireFree target) ?_
  intro _ _ _
  refine Paired.bind (h.requireParent target) ?_
  intro _ _ _
  exact Paired.pure (.add _ _)

theorem perform (hservice : call.service = .command) :
    Paired (Fault.Akin call same loose first second) (Change.Kindred same first second)
      first second (Plan.perform call.request) (Plan.perform call.request) := by
  unfold Plan.perform
  cases hmethod : call.request.method with
  | setstat => exact h.setstat call.request
  | rename => exact h.rename ⟨hservice, hmethod⟩
  | rmdir | remove => exact h.remove call.request.path
  | mkdir => exact h.mkdir call.request.path
  | link => exact h.link call.request.path call.request.target
  | symlink => exact h.symlink call.request.path call.request.target
  | list | stat | readlink | get | put | openFile => exact Paired.refuse (.refl _)

/-- Peers plan the same for every call, or refuse it alike. -/
theorem plan (call : Call) : Paired (Fault.Akin call same loose first second)
    (Likewise same first second) first second call.plan call.plan := by
  unfold Call.plan
  cases hservice : call.service with
  | read => exact h.openToRead call.request.path
  | write | openFile => exact h.openToWrite call.request.path
  | list => exact h.list call.request.method call.request.path
  | lstat => exact h.lstat call.request.path
  | command =>
      refine Paired.bind (h.perform hservice) ?_
      intro change other hkindred
      exact Paired.pure ⟨hkindred, .done⟩

end State.Peers

end FlatTree
