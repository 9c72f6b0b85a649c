import FlatTree.Proofs.Twin

/-!
What twins plan for a confined call: replies that name corresponding nodes, and
changes that differ in the numbers of nodes and in times only (`Change.Alike`).
Such a change names paths under the area and nodes that are known there. The scans
of the whole table that a listing, a removal and a rename make pick up entries of
the area only, so each is a scan of the area's entries (`Volume.children_inside`,
`Volume.below_inside`).
-/

namespace FlatTree

/-- Another value that leaves a node its place and its kind. -/
structure Node.Reworks (node after : Node) : Prop where
  path : after.path = node.path
  target : after.target = node.target

/-- The same move of corresponding nodes, under the area. -/
structure Move.Alike (area : Path) (same : NodeId → NodeId → Prop) (move other : Move) :
    Prop where
  id : same move.id other.id
  source_eq : move.source = other.source
  target_eq : move.target = other.target
  source : move.source.Under area
  target : move.target.Under area

/-- Changes under the area that differ in the numbers of nodes and in times only. -/
inductive Change.Alike (area : Path) (same : NodeId → NodeId → Prop) (first : State) :
    Change → Change → Prop
  | keep : Alike area same first .keep .keep
  | rewrite {a b node other} (known : same a b) (nodes : node.timeless = other.timeless)
      (reworks : (first.heap.get a).Reworks node) :
      Alike area same first (.rewrite a node) (.rewrite b other)
  | add {node record} (path : node.path.Under area)
      (target : node.isLink = true → node.target.Under area) :
      Alike area same first (.add node record) (.add node record)
  | share {target path a b} (known : same a b) (under : target.Under area) :
      Alike area same first (.share target path a) (.share target path b)
  | move {source target moves others}
      (likewise : List.Forall₂ (Move.Alike area same) moves others) :
      Alike area same first (.move source target moves) (.move source target others)
  | remove {path} (under : path.Under area) :
      Alike area same first (.remove path) (.remove path)

/-- The correspondence after a change: two nodes that were made correspond. -/
def Change.grown (same : NodeId → NodeId → Prop) (first second : State) :
    Change → NodeId → NodeId → Prop
  | .add _ _ => fun a b =>
      same a b ∨ (a = ⟨first.heap.size⟩ ∧ b = ⟨second.heap.size⟩)
  | _ => same

/-- Replies that name corresponding nodes. -/
inductive Reply.Alike (same : NodeId → NodeId → Prop) : Reply → Reply → Prop
  | node {a b} (h : same a b) : Alike same (.node a) (.node b)
  | listing {found other} (h : List.Forall₂ same found other) :
      Alike same (.listing ⟨found⟩) (.listing ⟨other⟩)
  | done : Alike same .done .done

theorem Reply.Alike.gained {same : NodeId → NodeId → Prop} {reply answer : Reply}
    (h : Reply.Alike same reply answer) : List.Forall₂ same reply.gained answer.gained := by
  cases h with
  | node hsame => exact .cons hsame .nil
  | listing hfound => exact hfound
  | done => exact .nil

theorem Change.grown_of_same {same : NodeId → NodeId → Prop} {first second : State}
    (change : Change) {a b : NodeId} (h : same a b) : change.grown same first second a b := by
  cases change with
  | add node record => exact Or.inl h
  | keep | rewrite | share | move | remove => exact h

/-- Nodes that correspond after a change did so before, or were made by it. -/
theorem Change.same_or_fresh {same : NodeId → NodeId → Prop} {first second : State}
    {change : Change} {a b : NodeId} (h : change.grown same first second a b) :
    same a b ∨ ∃ node record, change = .add node record ∧ a = ⟨first.heap.size⟩ ∧
      b = ⟨second.heap.size⟩ := by
  cases change with
  | add node record =>
      rcases h with hsame | ⟨ha, hb⟩
      · exact Or.inl hsame
      · exact Or.inr ⟨node, record, rfl, ha, hb⟩
  | keep | rewrite | share | move | remove => exact Or.inl h

/-- Nodes that correspond were made before, so the new ones are none of them. -/
theorem Change.biunique_grown {same : NodeId → NodeId → Prop} {first second : State}
    (hunique : Relator.BiUnique same)
    (hmade : ∀ a b, same a b → a.index < first.heap.size ∧ b.index < second.heap.size)
    (change : Change) : Relator.BiUnique (change.grown same first second) := by
  have hfirst : ∀ {b}, ¬same ⟨first.heap.size⟩ b :=
    fun hsame => Nat.lt_irrefl _ (hmade _ _ hsame).1
  have hsecond : ∀ {a}, ¬same a ⟨second.heap.size⟩ :=
    fun hsame => Nat.lt_irrefl _ (hmade _ _ hsame).2
  constructor
  · intro a b c ha hb
    rcases same_or_fresh ha with ha | ⟨_, _, -, rfl, rfl⟩
    · rcases same_or_fresh hb with hb | ⟨_, _, -, rfl, rfl⟩
      · exact hunique.1 ha hb
      · exact absurd ha hsecond
    · rcases same_or_fresh hb with hb | ⟨_, _, -, rfl, -⟩
      · exact absurd hb hsecond
      · rfl
  · intro a b c hb hc
    rcases same_or_fresh hb with hb | ⟨_, _, -, rfl, rfl⟩
    · rcases same_or_fresh hc with hc | ⟨_, _, -, rfl, rfl⟩
      · exact hunique.2 hb hc
      · exact absurd hb hfirst
    · rcases same_or_fresh hc with hc | ⟨_, _, -, -, rfl⟩
      · exact absurd hc hfirst
      · rfl

/-- Plans that end in the same reply and the same change, up to a correspondence of
the nodes. -/
structure State.Agreed (area : Path) (same : NodeId → NodeId → Prop) (first second : State)
    (planned other : Reply × Change) : Prop where
  change : Change.Alike area same first planned.2 other.2
  reply : Reply.Alike (planned.2.grown same first second) planned.1 other.1

theorem Node.eq_of_timeless {node other : Node} (h : node.timeless = other.timeless) :
    other = { node with createdAt := other.createdAt } := by
  cases node
  cases other
  simp only [timeless, Node.mk.injEq] at h
  simp [h]

/-- Cutting does not look at the time of creation. -/
theorem Node.truncate_alike {node other : Node} (h : node.timeless = other.timeless)
    (size : Int) :
    Matches Eq (fun cut after => cut.timeless = after.timeless ∧ node.Reworks cut)
      (node.truncate size) (other.truncate size) := by
  rw [Node.eq_of_timeless h]
  unfold truncate
  split
  · exact rfl
  · split
    · exact rfl
    · have hlink : Node.isLink { node with createdAt := other.createdAt } =
          node.isLink := rfl
      rw [hlink]
      split
      · exact rfl
      · simp only [Node.size]
        split
        · exact rfl
        · exact ⟨rfl, rfl, rfl⟩

theorem Node.writeAt_alike {node other : Node} (h : node.timeless = other.timeless)
    (data : Bytes) (offset : Int) :
    Matches Eq (fun cut after => cut.timeless = after.timeless ∧ node.Reworks cut)
      (node.writeAt data offset) (other.writeAt data offset) := by
  rw [Node.eq_of_timeless h]
  unfold writeAt
  split
  · exact rfl
  · simp only [Node.size]
    split
    · exact rfl
    · split
      · exact rfl
      · exact ⟨rfl, rfl, rfl⟩

theorem Volume.children_inside {volume : Volume} {name : Segment} {parent : Path}
    (hparent : parent.Within (Path.top name)) (hname : Path.Proper name) :
    volume.children parent =
      Path.sort (((volume.inside (Path.top name)).map Prod.fst).filter
        (·.parent == parent)) := by
  unfold Volume.children Volume.inside
  rw [List.filter_map, List.filter_map, List.filter_filter]
  congr 2
  apply List.filter_congr
  intro entry _
  by_cases hchild : entry.1.parent = parent
  · have hunder : entry.1.Under (Path.top name) :=
      Path.under_of_parent_within (by rw [hchild]; exact hparent) hname
    simp [hunder.within]
  · simp [hchild]

theorem Volume.below_inside {volume : Volume} {path area : Path}
    (hpath : path.Within area) :
    volume.below path = (volume.inside area).filter fun entry => entry.1.Under path := by
  -- Every entry below the path passes the filter for the area as well.
  unfold Volume.below Volume.inside
  rw [List.filter_filter]
  apply List.filter_congr
  intro entry _
  by_cases hunder : entry.1.Under path
  · have hwithin : entry.1.Within area := (hunder.trans_within hpath).within
    simp [hunder, hwithin]
  · simp [hunder]

namespace State.Twin

variable {name : Segment} {same : NodeId → NodeId → Prop} {first second : State}
  {path source target : Path} {a b : NodeId} (h : Twin name same first second)

include h

/-- A listing of the area has the same paths. -/
theorem children_eq (hpath : path.Within (Path.top name)) :
    first.volume.children path = second.volume.children path := by
  have hpaths : (first.volume.inside (Path.top name)).map Prod.fst =
      (second.volume.inside (Path.top name)).map Prod.fst := by
    have hmap := List.rel_map (R := Alike same) (P := Eq) (fun _ _ halike => halike.1) h.entries
    rwa [List.forall₂_eq_eq_eq] at hmap
  rw [Volume.children_inside hpath h.proper, Volume.children_inside hpath h.proper, hpaths]

theorem within_of_mem_children (hpath : path.Within (Path.top name)) {child : Path}
    (member : child ∈ first.volume.children path) : child.Within (Path.top name) := by
  rw [Volume.children_inside hpath h.proper] at member
  obtain ⟨hpaths, -⟩ := List.mem_filter.mp (Path.mem_sort.mp member)
  obtain ⟨entry, hentry, rfl⟩ := List.mem_map.mp hpaths
  exact (Volume.mem_inside.mp hentry).2

theorem listing_alike (hpath : path.Within (Path.top name)) :
    List.Forall₂ same
      ((first.volume.children path).filterMap first.volume.table.live?)
      ((second.volume.children path).filterMap second.volume.table.live?) := by
  have hpaths : List.Forall₂ (fun child other => child = other ∧
      child.Within (Path.top name)) (first.volume.children path)
        (second.volume.children path) := by
    rw [← h.children_eq hpath, List.forall₂_same]
    intro child member
    exact ⟨rfl, h.within_of_mem_children hpath member⟩
  refine List.rel_filterMap ?_ hpaths
  rintro child _ ⟨rfl, hchild⟩
  have hroot := hchild.ne_root h.proper
  have hlive := h.live? hchild
  rwa [Volume.live?_of_ne_root hroot, Volume.live?_of_ne_root hroot] at hlive

theorem below_alike (hpath : path.Under (Path.top name)) :
    List.Forall₂ (fun entry other => entry.1.Under path ∧ Alike same entry other)
      (first.volume.below path) (second.volume.below path) := by
  rw [Volume.below_inside hpath.within, Volume.below_inside hpath.within,
    List.forall₂_and_left]
  refine ⟨?_, List.rel_filter ?_ h.entries⟩
  · intro entry member
    exact of_decide_eq_true (List.mem_filter.mp member).2
  · intro entry other halike
    simp only [halike.1]

/-- A rename under the area makes the same moves. -/
theorem moves_alike (hsame : same a b) (isDirectory : Bool)
    (hsource : source.Under (Path.top name)) (htarget : target.Under (Path.top name)) :
    List.Forall₂ (Move.Alike (Path.top name) same)
      (first.volume.moves a isDirectory source target)
      (second.volume.moves b isDirectory source target) := by
  unfold Volume.moves
  refine .cons ⟨hsame, rfl, rfl, hsource, htarget⟩ ?_
  cases isDirectory with
  | false => exact .nil
  | true =>
      refine List.rel_map ?_ (h.below_alike hsource)
      rintro ⟨path, a⟩ ⟨other, b⟩ ⟨hunder, hpath, hsame⟩
      obtain rfl : path = other := hpath
      exact ⟨hsame, rfl, rfl, hunder.trans_within hsource.within,
        Path.rebase_under hunder htarget.within⟩

theorem find?_alike {moves others : List Move}
    (hmoves : List.Forall₂ (Move.Alike (Path.top name) same) moves others) :
    Option.Rel (Move.Alike (Path.top name) same)
      (moves.find? fun move => first.volume.occupied move.target)
      (others.find? fun move => second.volume.occupied move.target) := by
  induction hmoves with
  | nil => exact .none
  | @cons move other moves others hhead _ ih =>
      have hoccupied := h.abreast.occupied_eq hhead.target.within
      rw [List.find?_cons, List.find?_cons, ← hhead.target_eq, ← hoccupied]
      cases first.volume.occupied move.target with
      | true => exact .some hhead
      | false => exact ih

theorem view (hsame : same a b) :
    Parallel same first second (Plan.view a) (Plan.view b) := by
  unfold Plan.view Node.viewFault?
  apply Parallel.node_bind
  rw [h.isDirectory_eq hsame, h.path_eq hsame]
  cases (second.heap.get b).isDirectory with
  | true => exact Parallel.refuse _
  | false => exact Parallel.pure hsame

theorem openToRead (hpath : path.Within (Path.top name)) :
    Parallel (Agreed (Path.top name) same first second) first second
      (Plan.openToRead path) (Plan.openToRead path) := by
  unfold Plan.openToRead
  refine Parallel.bind (h.abreast.resolve hpath) ?_
  intro a b hsame
  refine Parallel.bind (h.view hsame) ?_
  intro a b hsame
  exact Parallel.pure ⟨.keep, .node hsame⟩

theorem createFile (hpath : path.Under (Path.top name)) :
    Parallel (Agreed (Path.top name) same first second) first second
      (Plan.createFile path) (Plan.createFile path) := by
  unfold Plan.createFile
  refine Parallel.bind (h.abreast.lookUp (hpath.parent_within h.proper)) ?_
  intro a b hsame
  apply Parallel.node_bind
  rw [h.isDirectory_eq hsame, h.path_eq hsame]
  split
  · refine ⟨.add hpath ?_, .node (Or.inr ⟨rfl, rfl⟩)⟩
    intro hlink
    cases hlink
  · exact Parallel.refuse _

theorem openToWrite (hpath : path.Under (Path.top name)) :
    Parallel (Agreed (Path.top name) same first second) first second
      (Plan.openToWrite path) (Plan.openToWrite path) := by
  have hseek : Parallel (Option.Rel same) first second (Query.seek path)
      (Query.seek path) := h.live? hpath.within
  have hview : ∀ a b, same a b →
      Parallel (Agreed (Path.top name) same first second) first second
        (do return (Reply.node (← Plan.view a), Change.keep))
        (do return (Reply.node (← Plan.view b), Change.keep)) := by
    intro a b hsame
    refine Parallel.bind (h.view hsame) ?_
    intro a b hsame
    exact Parallel.pure ⟨.keep, .node hsame⟩
  unfold Plan.openToWrite
  refine Parallel.bind hseek ?_
  intro found other hfound
  cases hfound with
  | none => exact h.createFile hpath
  | some hsame =>
      apply Parallel.node_bind
      rw [h.isLink_eq hsame]
      split
      · exact Parallel.bind (h.abreast.resolve hpath.within) hview
      · exact Parallel.bind (Parallel.pure hsame) hview

theorem list (method : Method) (hpath : path.Within (Path.top name)) :
    Parallel (Agreed (Path.top name) same first second) first second
      (Plan.list method path) (Plan.list method path) := by
  unfold Plan.list
  refine Parallel.bind (h.abreast.resolve hpath) ?_
  intro a b hsame
  cases method with
  | list =>
      apply Parallel.node_bind
      rw [h.isDirectory_eq hsame]
      split
      · apply Parallel.volume_bind
        rw [← h.path_eq hsame]
        exact Parallel.pure ⟨.keep, .listing (h.listing_alike (h.inside a b hsame))⟩
      · exact Parallel.refuse _
  | stat | readlink => exact Parallel.pure ⟨.keep, .listing (.cons hsame .nil)⟩
  | setstat | rename | rmdir | remove | mkdir | link | symlink | get | put | openFile =>
      exact Parallel.refuse _

theorem lstat (hpath : path.Within (Path.top name)) :
    Parallel (Agreed (Path.top name) same first second) first second
      (Plan.lstat path) (Plan.lstat path) := by
  unfold Plan.lstat
  refine Parallel.bind (h.abreast.lookUp hpath) ?_
  intro a b hsame
  exact Parallel.pure ⟨.keep, .listing (.cons hsame .nil)⟩

theorem setstat {request : Request} (hpath : request.path.Within (Path.top name)) :
    Parallel (Change.Alike (Path.top name) same first) first second
      (Plan.setstat request) (Plan.setstat request) := by
  unfold Plan.setstat
  refine Parallel.bind (h.abreast.resolve hpath) ?_
  intro a b hsame
  split
  · split
    · apply Parallel.node_bind
      rename_i size _
      have hcut : Parallel (fun cut after => cut.timeless = after.timeless ∧
          (first.heap.get a).Reworks cut) first second
            (Query.orRefuse ((first.heap.get a).truncate size))
            (Query.orRefuse ((second.heap.get b).truncate size)) :=
        Node.truncate_alike (h.nodes a b hsame) size
      refine Parallel.bind hcut ?_
      rintro cut after ⟨hnodes, hreworks⟩
      exact Parallel.pure (.rewrite hsame hnodes hreworks)
    · exact Parallel.refuse _
  · exact Parallel.pure .keep

theorem rename (hsource : source.Under (Path.top name))
    (htarget : target.Under (Path.top name)) :
    Parallel (Change.Alike (Path.top name) same first) first second
      (Plan.rename source target) (Plan.rename source target) := by
  unfold Plan.rename
  rw [if_neg (hsource.within.ne_root h.proper)]
  refine Parallel.bind (h.abreast.lookUp hsource.within) ?_
  intro a b hsame
  refine Parallel.bind (h.abreast.requireFree htarget.within) ?_
  intro _ _ _
  apply Parallel.node_bind
  simp only [h.isDirectory_eq hsame]
  split
  · exact Parallel.refuse _
  · refine Parallel.bind (h.requireParent htarget) ?_
    intro _ _ _
    apply Parallel.volume_bind
    apply Parallel.volume_bind
    have hmoves := h.moves_alike hsame (second.heap.get b).isDirectory hsource htarget
    have hfind := h.find?_alike (List.forall₂_drop 1 hmoves)
    rw [List.drop_one, List.drop_one] at hfind
    generalize List.find? _ (first.volume.moves _ _ _ _).tail = clash,
      List.find? _ (second.volume.moves _ _ _ _).tail = other at hfind
    cases hfind with
    | none => exact Parallel.pure (.move hmoves)
    | some halike =>
        simp only [halike.target_eq]
        exact Parallel.refuse _

theorem remove (hpath : path.Under (Path.top name)) :
    Parallel (Change.Alike (Path.top name) same first) first second
      (Plan.remove path) (Plan.remove path) := by
  unfold Plan.remove
  rw [if_neg (hpath.within.ne_root h.proper)]
  refine Parallel.bind (h.abreast.resolve (hpath.parent_within h.proper)) ?_
  intro a b hsame
  apply Parallel.node_bind
  apply Parallel.volume_bind
  have hbelow : first.volume.below path = [] ↔ second.volume.below path = [] := by
    have hlength := (h.below_alike hpath).length_eq
    rw [← List.length_eq_zero_iff, hlength, List.length_eq_zero_iff]
  simp only [h.isDirectory_eq hsame, ne_eq, hbelow]
  split
  · exact Parallel.refuse _
  · exact Parallel.pure (.remove hpath)

theorem mkdir (hpath : path.Under (Path.top name)) :
    Parallel (Change.Alike (Path.top name) same first) first second
      (Plan.mkdir path) (Plan.mkdir path) := by
  unfold Plan.mkdir
  refine Parallel.bind (h.requireParent hpath) ?_
  intro _ _ _
  refine Parallel.bind (h.abreast.requireFree hpath.within) ?_
  intro _ _ _
  refine Parallel.pure (.add hpath ?_)
  intro hlink
  cases hlink

theorem link (hpath : path.Under (Path.top name)) (htarget : target.Under (Path.top name)) :
    Parallel (Change.Alike (Path.top name) same first) first second
      (Plan.link path target) (Plan.link path target) := by
  unfold Plan.link
  refine Parallel.bind (h.abreast.resolve hpath.within) ?_
  intro a b hsame
  apply Parallel.node_bind
  rw [h.isDirectory_eq hsame]
  split
  · exact Parallel.refuse _
  · refine Parallel.bind (h.abreast.requireFree htarget.within) ?_
    intro _ _ _
    refine Parallel.bind (h.requireParent htarget) ?_
    intro _ _ _
    exact Parallel.pure (.share hsame htarget)

theorem symlink (hpath : path.Under (Path.top name))
    (htarget : target.Under (Path.top name)) :
    Parallel (Change.Alike (Path.top name) same first) first second
      (Plan.symlink path target) (Plan.symlink path target) := by
  unfold Plan.symlink
  refine Parallel.bind (h.abreast.resolve hpath.within) ?_
  intro a b hsame
  refine Parallel.bind (h.abreast.requireFree htarget.within) ?_
  intro _ _ _
  refine Parallel.bind (h.requireParent htarget) ?_
  intro _ _ _
  refine Parallel.pure (.add htarget ?_)
  intro _
  exact hpath

end State.Twin

namespace Call.Confined

variable {call : Call} {area : Path} (h : call.Confined area)

include h

theorem within : call.request.path.Within area := by
  rcases h.path with hunder | ⟨-, hsame⟩
  · exact hunder.within
  · exact Or.inl hsame

theorem under (hservice : call.service.readsOnly = false) :
    call.request.path.Under area := by
  rcases h.path with hunder | ⟨hreads, -⟩
  · exact hunder
  · rw [hservice] at hreads
    cases hreads

end Call.Confined

namespace State.Twin

variable {name : Segment} {same : NodeId → NodeId → Prop} {first second : State}
  {call : Call}

theorem perform (h : Twin name same first second) (hcall : call.Confined (Path.top name))
    (hservice : call.service = .command) :
    Parallel (Change.Alike (Path.top name) same first) first second
      (Plan.perform call.request) (Plan.perform call.request) := by
  have hpath : call.request.path.Under (Path.top name) :=
    hcall.under (by rw [hservice]; rfl)
  unfold Plan.perform
  cases hmethod : call.request.method with
  | setstat => exact h.setstat hpath.within
  | rename => exact h.rename hpath (hcall.target hservice (Or.inl hmethod))
  | rmdir | remove => exact h.remove hpath
  | mkdir => exact h.mkdir hpath
  | link => exact h.link hpath (hcall.target hservice (Or.inr (Or.inl hmethod)))
  | symlink => exact h.symlink hpath (hcall.target hservice (Or.inr (Or.inr hmethod)))
  | list | stat | readlink | get | put | openFile => exact Parallel.refuse _

/-- Twins plan the same for a confined call. -/
theorem plan (h : Twin name same first second) (hcall : call.Confined (Path.top name)) :
    Parallel (Agreed (Path.top name) same first second) first second call.plan
      call.plan := by
  unfold Call.plan
  cases hservice : call.service with
  | read => exact h.openToRead hcall.within
  | write | openFile => exact h.openToWrite (hcall.under (by rw [hservice]; rfl))
  | list => exact h.list call.request.method hcall.within
  | lstat => exact h.lstat hcall.within
  | command =>
      refine Parallel.bind (h.perform hcall hservice) ?_
      intro change other halike
      exact Parallel.pure ⟨halike, .done⟩

end State.Twin

end FlatTree
