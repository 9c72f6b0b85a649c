import FlatTree.Proofs.Enclosure
import FlatTree.Proofs.Refinement
import FlatTree.Proofs.Staleness

/-!
Opening a path for reading and for writing. Reading follows links from the start;
writing looks at the path first, makes a file if the path is free, and only then
follows links. Both come to the same node: what either of them opens is a regular
file (`State.Opens`), and every later visit to the path shows that file and changes
nothing (`Opens.run`). An entry is made under a path just when the path is free and
its parent, no link followed, is a directory.
-/

namespace FlatTree

/-- The call opens the path, or asks for the metadata of what it leads to. -/
def Call.Visits (call : Call) (path : Path) : Prop :=
  call.request.path = path ∧
    (call.service = .read ∨ call.Writes ∨
      call.service = .list ∧ (call.request.method = .stat ∨ call.request.method = .readlink))

/-- The reply to a call that visits a path, when the path leads to the node. -/
def Call.shown (call : Call) (id : NodeId) : Reply :=
  if call.service = .list then .listing ⟨[id]⟩ else .node id

/-- The call puts an entry under a path that had none. -/
def Call.Enters (call : Call) (state : State) : Prop :=
  ∃ path id, state.volume.table.live? path = none ∧
    (state.serve call).volume.table.live? path = some id

/-- The call sets the size of what a path leads to. -/
structure Call.Resizes (call : Call) (path : Path) (size : Int) : Prop where
  command : call.Commands .setstat
  path_eq : call.request.path = path
  hasSize : call.request.attributes.hasSize = true
  size_eq : call.request.attributes.size = some (.whole size)

namespace Volume

variable {volume : Volume} {heap : Heap} {path : Path} {id : NodeId}

theorem holdsDirectory_iff (hroot : (heap.get volume.root).isDirectory = true) :
    volume.HoldsDirectory heap path ↔
      path = Path.root ∨
        ∃ id, volume.table.live? path = some id ∧ (heap.get id).isDirectory = true := by
  unfold HoldsDirectory
  by_cases hpath : path = Path.root
  · rw [hpath, live?_root]
    exact iff_of_true ⟨_, rfl, hroot⟩ (Or.inl rfl)
  · rw [live?_of_ne_root hpath]
    simp [hpath]

theorem holdsDirectory_tidy :
    volume.tidy.HoldsDirectory heap path ↔ volume.HoldsDirectory heap path := by
  unfold HoldsDirectory
  rw [live?_tidy]

/-- A path is free when it is neither the root's nor that of a live entry. -/
theorem live?_eq_none_iff :
    volume.live? path = none ↔ path ≠ Path.root ∧ volume.table.live? path = none := by
  constructor
  · intro hfree
    exact ⟨ne_root_of_free hfree, table_free hfree⟩
  · rintro ⟨hpath, hfree⟩
    rwa [live?_of_ne_root hpath]

end Volume

namespace Plan

open Query

variable {volume : Volume} {heap : Heap} {path : Path} {id : NodeId} {reply : Reply}
  {change : Change}

/-- A node is a view for transfers unless it is a directory. -/
theorem outcome_view_eq_ok {found : NodeId} :
    ((view id) volume heap).outcome = .ok found ↔
      (heap.get id).isDirectory = false ∧ id = found := by
  unfold view Node.viewFault?
  rw [outcome_node_bind]
  cases (heap.get id).isDirectory with
  | true => simp [outcome_refuse]
  | false => simp [outcome_pure]

/-- What is opened is replied, and nothing is changed. -/
theorem outcome_opened_eq_ok :
    ((do return (Reply.node (← view id), Change.keep) : Query _) volume heap).outcome =
        .ok (reply, change) ↔
      (heap.get id).isDirectory = false ∧ reply = .node id ∧ change = .keep := by
  simp only [outcome_bind_eq_ok, outcome_view_eq_ok]
  constructor
  · rintro ⟨_, ⟨hplain, rfl⟩, hpure⟩
    cases hpure
    exact ⟨hplain, rfl, rfl⟩
  · rintro ⟨hplain, rfl, rfl⟩
    exact ⟨id, ⟨hplain, rfl⟩, rfl⟩

theorem outcome_openToRead_eq_ok :
    ((openToRead path) volume heap).outcome = .ok (reply, change) ↔
      ∃ id, volume.Leads heap path id ∧ (heap.get id).isDirectory = false ∧
        reply = .node id ∧ change = .keep := by
  unfold openToRead
  rw [outcome_bind_eq_ok]
  simp only [outcome_resolve_eq_ok, outcome_opened_eq_ok]

theorem outcome_createFile_eq_ok :
    ((createFile path) volume heap).outcome = .ok (reply, change) ↔
      volume.HoldsDirectory heap path.parent ∧ reply = .node ⟨heap.size⟩ ∧
        change = .add { path } (.fileCreated path) := by
  unfold createFile Volume.HoldsDirectory
  simp only [outcome_bind_eq_ok, outcome_lookUp_eq_ok, outcome_node_eq_ok]
  constructor
  · rintro ⟨parent, hheld, node, rfl, hrest⟩
    split at hrest
    · rename_i hdirectory
      obtain ⟨_, hfresh, hpure⟩ := outcome_bind_eq_ok.mp hrest
      cases hfresh
      cases hpure
      exact ⟨⟨parent, hheld, hdirectory⟩, rfl, rfl⟩
    · cases hrest
  · rintro ⟨⟨parent, hheld, hdirectory⟩, rfl, rfl⟩
    refine ⟨parent, hheld, _, rfl, ?_⟩
    rw [if_pos hdirectory]
    rfl

/-- The node that is opened for writing: where the path leads, or, when the path is
free, a new file. -/
theorem outcome_openToWrite_eq_ok :
    ((openToWrite path) volume heap).outcome = .ok (reply, change) ↔
      (∃ id, volume.Leads heap path id ∧ (heap.get id).isDirectory = false ∧
        reply = .node id ∧ change = .keep) ∨
      (volume.live? path = none ∧ volume.HoldsDirectory heap path.parent ∧
        reply = .node ⟨heap.size⟩ ∧ change = .add { path } (.fileCreated path)) := by
  unfold openToWrite
  rw [outcome_bind_eq_ok]
  simp only [outcome_seek_eq_ok, exists_eq_left']
  cases hlive : volume.live? path with
  | none =>
      simp only [outcome_createFile_eq_ok, true_and]
      refine (or_iff_right ?_).symm
      rintro ⟨id, hleads, -⟩
      obtain ⟨held, hheld⟩ := hleads.occupied
      rw [hlive] at hheld
      cases hheld
  | some held =>
      simp only [outcome_node_bind, reduceCtorEq, false_and, or_false]
      split
      · rw [outcome_bind_eq_ok]
        simp only [outcome_resolve_eq_ok, outcome_opened_eq_ok]
      · rename_i hlink
        have hheld := Volume.leads_of_live? hlive (by simpa using hlink)
        rw [outcome_bind, outcome_pure, outcome_opened_eq_ok]
        constructor
        · intro hopened
          exact ⟨held, hheld, hopened⟩
        · rintro ⟨id, hleads, hopened⟩
          rw [hheld.unique hleads]
          exact hopened

end Plan

theorem Call.plan_of_writes {call : Call} (h : call.Writes) :
    call.plan = Plan.openToWrite call.request.path := by
  unfold Call.plan
  rcases h with hservice | hservice
  · rw [hservice]
  · rw [hservice]

namespace State

variable {state after : State} {path : Path} {id : NodeId} {call : Call}

/-- A path leads to a regular file, and calls are served. -/
structure Opens (state : State) (path : Path) (id : NodeId) : Prop where
  injected : state.volume.injected = none
  leads : state.volume.Leads state.heap path id
  plain : (state.node id).isDirectory = false

/-- Visits to the path, any number of them, show the node, and change neither a node nor
a live entry. -/
def Presents (state : State) (path : Path) (id : NodeId) : Prop :=
  ∀ visits : List Call, (∀ visit ∈ visits, visit.Visits path) →
    state.answers visits = visits.map (fun visit => .ok (visit.shown id)) ∧
      (state.run visits).heap = state.heap ∧
      (state.run visits).volume.table.live = state.volume.table.live

theorem Opens.isFile (h : state.Opens path id) : (state.node id).isFile = true := by
  have hlink : (state.node id).isLink = false := h.leads.isLink
  simp [Node.isFile, h.plain, hlink]

theorem Spares.tidy (h : state.Spares after) : after.volume.tidy = state.volume.tidy := by
  rw [h.volume]
  simp only [Volume.tidy, Table.tidy_congr h.live]

/-- A path opens to the same node wherever the live entries and the nodes are the same. -/
theorem Spares.opens (h : state.Spares after) (hopens : state.Opens path id) :
    after.Opens path id where
  injected := by
    rw [h.volume]
    exact hopens.injected
  leads := by
    rw [h.heap]
    exact hopens.leads.of_tidy h.tidy
  plain := by
    unfold node
    rw [h.heap]
    exact hopens.plain

/-- A call that is planned to change nothing spares the state. -/
theorem spares_of_keep {reply : Reply} (hinjected : state.volume.injected = none)
    (hplan : (call.plan state.volume.tidy state.heap).outcome = .ok (reply, .keep)) :
    call.answer state = .ok reply ∧ state.Spares (state.serve call) := by
  rw [answer_eq call hinjected, serve_eq call hinjected, hplan]
  exact ⟨rfl, spares_during_visitAll state call.request _⟩

namespace Opens

/-- A call that visits the path is planned to show the node and to change nothing. -/
theorem plan (h : state.Opens path id) (hvisit : call.Visits path) :
    (call.plan state.volume.tidy state.heap).outcome = .ok (call.shown id, .keep) := by
  obtain ⟨rfl, hservice⟩ := hvisit
  have hleads := Volume.leads_tidy.mpr h.leads
  unfold Call.shown
  rcases hservice with hread | hwrites | ⟨hlist, hmethod⟩
  · unfold Call.plan
    rw [hread]
    exact Plan.outcome_openToRead_eq_ok.mpr ⟨id, hleads, h.plain, rfl, rfl⟩
  · have hlist : call.service ≠ .list := by
      rcases hwrites with hservice | hservice
      · simp [hservice]
      · simp [hservice]
    rw [Call.plan_of_writes hwrites, if_neg hlist]
    exact Plan.outcome_openToWrite_eq_ok.mpr (.inl ⟨id, hleads, h.plain, rfl, rfl⟩)
  · unfold Call.plan
    rw [hlist]
    refine Query.outcome_bind_eq_ok.mpr ⟨id, Plan.outcome_resolve_eq_ok.mpr hleads, ?_⟩
    rcases hmethod with hmethod | hmethod
    · rw [hmethod]
      rfl
    · rw [hmethod]
      rfl

/-- Where a path opens to a node, every visit to the path shows that node. -/
theorem presents (h : state.Opens path id) : state.Presents path id := by
  intro visits hvisits
  induction visits generalizing state with
  | nil => exact ⟨rfl, rfl, rfl⟩
  | cons visit rest ih =>
      obtain ⟨hanswer, hspares⟩ :=
        spares_of_keep h.injected (h.plan (hvisits visit List.mem_cons_self))
      -- The path opens to the node after the visit too, so the rest shows it as well.
      obtain ⟨hanswers, hheap, hlive⟩ := ih (hspares.opens h)
        fun other member => hvisits other (List.mem_cons_of_mem visit member)
      refine ⟨?_, ?_, ?_⟩
      · rw [answers, hanswer, hanswers, List.map_cons]
      · rw [run_cons, hheap, hspares.heap]
      · rw [run_cons, hlive, hspares.live]

/-- A size that is set resizes the content of the node and changes nothing else, unless
the content would have to grow too large. -/
theorem resize (h : state.Opens path id) {size : Int} (hcall : call.Resizes path size)
    (hsize : 0 ≤ size) :
    match Node.growthFault? (size.toNat - (state.node id).size) with
    | some fault => call.answer state = .error (.fault fault) ∧ state.Spares (state.serve call)
    | none => call.answer state = .ok .done ∧
        (state.serve call).heap = state.heap.set id
          { state.node id with content := (state.node id).content.resize size.toNat } ∧
        (state.serve call).volume.table.live = state.volume.table.live := by
  have hpath := hcall.path_eq
  subst hpath
  have hplan : (call.plan state.volume.tidy state.heap).outcome =
      match Node.growthFault? (size.toNat - (state.node id).size) with
      | some fault => .error fault
      | none => .ok (.done, .rewrite id
          { state.node id with content := (state.node id).content.resize size.toNat }) := by
    have hcut : (state.heap.get id).truncate size = _ :=
      Node.truncate_of_file (not_lt.mpr hsize) h.plain h.leads.isLink
    unfold Call.plan Plan.perform
    rw [hcall.command.1, hcall.command.2]
    simp only [Query.outcome_bind]
    rw [Plan.outcome_setstat (Volume.leads_tidy.mpr h.leads) hcall.hasSize hcall.size_eq,
      hcut]
    unfold node
    cases Node.growthFault? (size.toNat - (state.heap.get id).size) <;> rfl
  have hanswer := answer_eq call h.injected
  have hserve := serve_eq call h.injected
  rw [hplan] at hanswer hserve
  cases hfault : Node.growthFault? (size.toNat - (state.node id).size) with
  | some fault =>
      rw [hfault] at hanswer
      exact ⟨hanswer, spares_of_answer_error hanswer⟩
  | none =>
      rw [hfault] at hanswer hserve
      rw [hserve]
      let entered : State := { state with scopes := call.request :: state.scopes }
      refine ⟨hanswer, ?_, live_visitAll entered _⟩
      exact congrArg (Heap.set · id _) (heap_visitAll entered _)

end Opens

/-- What is read is what the path opens to. -/
theorem opens_of_read (hservice : call.service = .read)
    (hanswer : call.answer state = .ok (.node id)) : state.Opens call.request.path id := by
  obtain ⟨change, hinjected, hplan, -⟩ := agrees_of_answer_ok hanswer
  unfold Call.plan at hplan
  rw [hservice] at hplan
  obtain ⟨found, hleads, hplain, hreply, -⟩ := Plan.outcome_openToRead_eq_ok.mp hplan
  cases hreply
  exact ⟨hinjected, Volume.leads_tidy.mp hleads, hplain⟩

/-- A call that opens a path for writing finds what the path opens to, or makes a file
under the path. -/
theorem writes_cases (hwrites : call.Writes) {reply : Reply}
    (hanswer : call.answer state = .ok reply) :
    (∃ id, reply = .node id ∧ state.Opens call.request.path id ∧
        (state.serve call).Agrees state) ∨
      (reply = .node ⟨state.heap.size⟩ ∧ state.volume.injected = none ∧
        state.volume.live? call.request.path = none ∧
        state.volume.HoldsDirectory state.heap call.request.path.parent ∧
        (state.serve call).Agrees (state.commit
          (.add { path := call.request.path } (.fileCreated call.request.path)))) := by
  obtain ⟨change, hinjected, hplan, hagrees⟩ := agrees_of_answer_ok hanswer
  rw [Call.plan_of_writes hwrites] at hplan
  rcases Plan.outcome_openToWrite_eq_ok.mp hplan with
    ⟨id, hleads, hplain, rfl, rfl⟩ | ⟨hfree, hparent, rfl, rfl⟩
  · exact Or.inl ⟨id, rfl, ⟨hinjected, Volume.leads_tidy.mp hleads, hplain⟩, hagrees⟩
  · rw [Volume.live?_tidy] at hfree
    exact Or.inr ⟨rfl, hinjected, hfree, Volume.holdsDirectory_tidy.mp hparent, hagrees⟩

/-- Under a free path in a directory, opening for writing makes a file. -/
theorem makes_file (hwrites : call.Writes) (hinjected : state.volume.injected = none)
    (hfree : state.volume.live? call.request.path = none)
    (hparent : state.volume.HoldsDirectory state.heap call.request.path.parent) :
    call.answer state = .ok (.node ⟨state.heap.size⟩) ∧
      (state.serve call).Agrees (state.commit
        (.add { path := call.request.path } (.fileCreated call.request.path))) := by
  have hplan : (call.plan state.volume.tidy state.heap).outcome =
      .ok (.node ⟨state.heap.size⟩,
        .add { path := call.request.path } (.fileCreated call.request.path)) := by
    rw [Call.plan_of_writes hwrites]
    refine Plan.outcome_openToWrite_eq_ok.mpr (.inr ⟨?_, ?_, rfl, rfl⟩)
    · rw [Volume.live?_tidy]
      exact hfree
    · exact Volume.holdsDirectory_tidy.mpr hparent
  have hanswer : call.answer state = .ok (.node ⟨state.heap.size⟩) := by
    rw [answer_eq call hinjected, hplan]
  obtain ⟨change, -, hplanned, hagrees⟩ := agrees_of_answer_ok hanswer
  rw [hplan] at hplanned
  cases hplanned
  exact ⟨hanswer, hagrees⟩

/-- Opening for writing makes an entry just when the path is free and its parent, no
link followed, is a directory. -/
theorem enters_iff (hwrites : call.Writes) :
    call.Enters state ↔
      state.volume.injected = none ∧ state.volume.live? call.request.path = none ∧
        state.volume.HoldsDirectory state.heap call.request.path.parent := by
  constructor
  · rintro ⟨path, id, hnone, hsome⟩
    have hsame : ¬(state.serve call).Agrees state := by
      intro hagrees
      rw [hagrees.live, hnone] at hsome
      cases hsome
    cases hanswer : call.answer state with
    | error refusal => exact absurd (agrees_of_answer_error hanswer) hsame
    | ok reply =>
        rcases writes_cases hwrites hanswer with
          ⟨_, -, -, hagrees⟩ | ⟨-, hinjected, hfree, hparent, -⟩
        · exact absurd hagrees hsame
        · exact ⟨hinjected, hfree, hparent⟩
  · rintro ⟨hinjected, hfree, hparent⟩
    obtain ⟨-, hagrees⟩ := makes_file hwrites hinjected hfree hparent
    refine ⟨call.request.path, ⟨state.heap.size⟩, Volume.table_free hfree, ?_⟩
    rw [hagrees.live, live?_add, if_pos rfl]

/-- The path of a file that was made opens to it. -/
theorem opens_of_made {path : Path} (hpath : path ≠ Path.root)
    (hinjected : state.volume.injected = none)
    (hagrees : after.Agrees (state.commit (.add { path } (.fileCreated path)))) :
    after.Opens path ⟨state.heap.size⟩ := by
  have hmade : after.heap.get ⟨state.heap.size⟩ =
      { path, delay := state.volume.settings.writeDelay, createdAt := state.heap.size } := by
    rw [hagrees.heap, get_add, if_pos rfl]
  refine ⟨hagrees.injected.trans hinjected, Volume.leads_of_live? ?_ ?_, ?_⟩
  · rw [hagrees.live?, Volume.live?_of_ne_root hpath, live?_add, if_pos rfl]
  · rw [hmade]
    rfl
  · unfold node
    rw [hmade]

/-- The path for reading and the path for writing meet. A node that reading opens is
the one that every visit to the path shows. A node that writing opens is a regular file,
and from then on every visit shows it, and a size that is set resizes it and nothing
else; only a content that would grow too large is refused. Writing makes an entry just
when no failure is injected, the path is neither the root nor live, and its parent, no
link followed, is a directory; the entry is an empty regular file under the path. -/
theorem reading_meets_writing (state : State) (path : Path)
    (hroot : (state.node state.volume.root).isDirectory = true) :
    (∀ (call : Call) (id : NodeId), call.service = .read → call.request.path = path →
        call.answer state = .ok (.node id) → state.Presents path id) ∧
      (∀ (call : Call) (id : NodeId), call.Writes → call.request.path = path →
        call.answer state = .ok (.node id) →
          let after := state.serve call
          (after.node id).isFile = true ∧ after.Presents path id ∧
            ∀ (resizing : Call) (size : Int), resizing.Resizes path size → 0 ≤ size →
              match Node.growthFault? (size.toNat - (after.node id).size) with
              | some fault => resizing.answer after = .error (.fault fault) ∧
                  after.Spares (after.serve resizing)
              | none => resizing.answer after = .ok .done ∧
                  (after.serve resizing).heap = after.heap.set id { after.node id with
                    content := (after.node id).content.resize size.toNat } ∧
                  (after.serve resizing).volume.table.live = after.volume.table.live) ∧
      ∀ call : Call, call.Writes → call.request.path = path →
        (call.Enters state ↔
          state.volume.injected = none ∧
            (path ≠ Path.root ∧ state.volume.table.live? path = none) ∧
            (path.parent = Path.root ∨ ∃ id,
              state.volume.table.live? path.parent = some id ∧
                (state.node id).isDirectory = true)) ∧
        (call.Enters state →
          call.answer state = .ok (.node ⟨state.heap.size⟩) ∧
            (∀ key, (state.serve call).volume.table.live? key =
              if key = path then some ⟨state.heap.size⟩
              else state.volume.table.live? key) ∧
            ∀ id, (state.serve call).node id =
              if id = ⟨state.heap.size⟩ then
                { path, content := [], delay := state.volume.settings.writeDelay,
                  createdAt := state.heap.size }
              else state.node id) := by
  refine ⟨?_, ?_, ?_⟩
  · rintro call id hservice rfl hanswer
    exact (opens_of_read hservice hanswer).presents
  · rintro call id hwrites rfl hanswer after
    have hopens : after.Opens call.request.path id := by
      rcases writes_cases hwrites hanswer with
        ⟨_, hreply, hopens, -⟩ | ⟨hreply, hinjected, hfree, -, hagrees⟩
      · cases hreply
        have hplan := hopens.plan ⟨rfl, Or.inr (Or.inl hwrites)⟩
        exact (spares_of_keep hopens.injected hplan).2.opens hopens
      · cases hreply
        exact opens_of_made (Volume.ne_root_of_free hfree) hinjected hagrees
    exact ⟨hopens.isFile, hopens.presents, fun resizing size hcall => hopens.resize hcall⟩
  · rintro call hwrites rfl
    have henters : call.Enters state ↔ _ := enters_iff hwrites
    refine ⟨?_, ?_⟩
    · rw [henters, Volume.live?_eq_none_iff, Volume.holdsDirectory_iff hroot]
      rfl
    · intro h
      obtain ⟨hinjected, hfree, hparent⟩ := henters.mp h
      obtain ⟨hanswer, hagrees⟩ := makes_file hwrites hinjected hfree hparent
      refine ⟨hanswer, fun key => ?_, fun id => ?_⟩
      · rw [hagrees.live, live?_add]
      · unfold node
        rw [hagrees.heap, get_add]

/-- A store with a file and a link to it. -/
def fileBehindLink : State :=
  (State.start {}).run
    [⟨.write, { method := .put, path := ['/', 'a'] }⟩,
      ⟨.command, { method := .symlink, path := ['/', 'a'], target := ['/', 'l'] }⟩]

/-- Reading and writing through the link open the file, and a size that is set there is
the file's. The link itself is no parent for a new entry, while the root is. -/
theorem file_opened_through_link :
    let read : Call := ⟨.read, { method := .get, path := ['/', 'l'] }⟩
    let write : Call := ⟨.write, { method := .put, path := ['/', 'l'] }⟩
    let stat : Call := ⟨.list, { method := .stat, path := ['/', 'l'] }⟩
    let resizing : Call := ⟨.command,
      { method := .setstat, path := ['/', 'l'],
        attributes := { flags := 1, size := some (.whole 2) } }⟩
    let made : Call := ⟨.openFile, { method := .openFile, path := ['/', 'b'] }⟩
    let after := fileBehindLink.serve write
    read.answer fileBehindLink = .ok (.node ⟨1⟩) ∧
      fileBehindLink.answers [write, stat, read] =
        [.ok (.node ⟨1⟩), .ok (.listing ⟨[⟨1⟩]⟩), .ok (.node ⟨1⟩)] ∧
      write.answer fileBehindLink = .ok (.node ⟨1⟩) ∧ (after.node ⟨1⟩).isFile = true ∧
      (after.serve resizing).heap =
        after.heap.set ⟨1⟩ { after.node ⟨1⟩ with content := [0, 0] } ∧
      ¬write.Enters fileBehindLink ∧ made.Enters fileBehindLink ∧
      made.answer fileBehindLink = .ok (.node ⟨3⟩) := by
  intro read write stat resizing made after
  obtain ⟨hread, hwrite, hmade⟩ := reading_meets_writing fileBehindLink ['/', 'l'] (by decide)
  have hopened : read.answer fileBehindLink = .ok (.node ⟨1⟩) := by decide +kernel
  have hwritten : write.answer fileBehindLink = .ok (.node ⟨1⟩) := by decide +kernel
  have hvisits : ∀ visit ∈ [write, stat, read], visit.Visits ['/', 'l'] := by
    intro visit member
    simp only [List.mem_cons, List.not_mem_nil, or_false] at member
    rcases member with rfl | rfl | rfl
    · exact ⟨rfl, Or.inr (Or.inl (Or.inl rfl))⟩
    · exact ⟨rfl, Or.inr (Or.inr ⟨rfl, Or.inl rfl⟩)⟩
    · exact ⟨rfl, Or.inl rfl⟩
  obtain ⟨hanswers, -, -⟩ := hread read ⟨1⟩ rfl rfl hopened _ hvisits
  obtain ⟨hfile, -, hresize⟩ := hwrite write ⟨1⟩ (Or.inl rfl) rfl hwritten
  have hresized := hresize resizing 2 ⟨⟨rfl, rfl⟩, rfl, by decide, rfl⟩ (by decide)
  have hsize : (after.node ⟨1⟩).content = [] := by decide +kernel
  have hfits : Node.growthFault? ((2 : Int).toNat - (after.node ⟨1⟩).size) = none := by
    unfold Node.size
    rw [hsize]
    decide
  rw [hfits] at hresized
  obtain ⟨-, hheap, -⟩ := hresized
  obtain ⟨-, -, hparent⟩ := reading_meets_writing fileBehindLink ['/', 'b'] (by decide)
  obtain ⟨henters, hentered⟩ := hparent made (Or.inr rfl) rfl
  have hnew : made.Enters fileBehindLink :=
    henters.mpr ⟨by decide +kernel, ⟨by decide, by decide +kernel⟩, Or.inl (by decide)⟩
  refine ⟨hopened, hanswers, hwritten, hfile, ?_, ?_, hnew, (hentered hnew).1⟩
  · rw [hheap, hsize]
    rfl
  · intro hcontra
    have hfree := ((hmade write (Or.inl rfl) rfl).1.mp hcontra).2.1.2
    revert hfree
    decide +kernel

/-- A store that was told to refuse every call. -/
def refusing : State :=
  let store := State.start {}
  { store with volume.injected := some ⟨.runtime, [.text ['x']]⟩ }

/-- A free path in the root is not entered while a failure is injected, and a file does
not take a size beyond all that can be addressed. -/
theorem free_path_not_entered :
    let write : Call := ⟨.write, { method := .put, path := ['/', 'a'] }⟩
    let resizing : Call := ⟨.command,
      { method := .setstat, path := ['/', 'a'],
        attributes := { flags := 1, size := some (.whole 9223372036854775808) } }⟩
    let after := (State.start {}).serve write
    (refusing.node refusing.volume.root).isDirectory = true ∧
      write.request.path ≠ Path.root ∧
      refusing.volume.table.live? write.request.path = none ∧
      write.request.path.parent = Path.root ∧ ¬write.Enters refusing ∧
      write.answer (State.start {}) = .ok (.node ⟨1⟩) ∧
      resizing.answer after = .error (.fault .growthUnaddressable) := by
  intro write resizing after
  refine ⟨by decide, by decide, by decide +kernel, by decide, ?_, by decide +kernel,
    by decide +kernel⟩
  intro hcontra
  obtain ⟨hinjected, -⟩ := (enters_iff (Or.inl rfl)).mp hcontra
  cases hinjected

end State

end FlatTree
