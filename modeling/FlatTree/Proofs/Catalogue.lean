import FlatTree.Proofs.Enclosure

/-!
What listings tell of a store without symbolic links. The listing of a directory
holds one node for each entry right in it, in the order of the keys
(`Volume.Catalogue`). Every entry is right in one directory, and by listing the
root and then the directories that were listed, one comes to every directory
(`State.Reached`).
-/

namespace FlatTree

/-- The call asks for the entries of a directory. -/
def Call.Lists (call : Call) (directory : Path) : Prop :=
  call.service = .list ∧ call.request.method = .list ∧ call.request.path = directory

/-- The call asks for the entry of a path, no link followed. -/
def Call.LooksUp (call : Call) (path : Path) : Prop :=
  call.service = .lstat ∧ call.request.path = path

/-- The nodes are those of the entries right in a directory, one for each key, in
strict code point order of the keys. -/
structure Volume.Catalogue (volume : Volume) (directory : Path) (keys : List Path)
    (nodes : List NodeId) : Prop where
  ordered : keys.Pairwise fun first second => first.le second = true ∧ first ≠ second
  member : ∀ key, key ∈ keys ↔
    (∃ id, volume.table.live? key = some id) ∧ key.parent = directory
  held : keys.map volume.table.live? = nodes.map some

/-- What one comes to, and in which state of the store, by listing the root and then
again and again a directory of the listing before. -/
inductive State.Reached (state : State) : State → Path → Prop
  | root : Reached state state Path.root
  | listed {between : State} {directory : Path} {call : Call} {listing : Listing}
      {id : NodeId} (reached : Reached state between directory)
      (lists : call.Lists directory) (answered : call.answer between = .ok (.listing listing))
      (member : id ∈ listing.nodes) (isDirectory : (between.node id).isDirectory = true) :
      Reached state (between.serve call) (between.node id).path

namespace Volume

variable {volume : Volume} {directory key : Path}

theorem mem_children : key ∈ volume.children directory ↔
    (∃ id, volume.table.live? key = some id) ∧ key.parent = directory := by
  simp only [children, Path.mem_sort, List.mem_filter, List.mem_map, Prod.exists,
    exists_and_right, exists_eq_right, Table.mem_live, beq_iff_eq]

theorem nodup_children (volume : Volume) (directory : Path) :
    (volume.children directory).Nodup :=
  (Path.sort_perm _).nodup_iff.mpr (volume.table.nodup_live.filter _)

/-- The nodes of the children of a directory are catalogued under them. -/
theorem catalogue_children (volume : Volume) (directory : Path) :
    volume.Catalogue directory (volume.children directory)
      ((volume.children directory).filterMap volume.table.live?) where
  ordered := by
    have hordered := Path.sort_pairwise
      ((volume.table.live.map Prod.fst).filter (·.parent == directory))
    exact hordered.and (volume.nodup_children directory)
  member _ := mem_children
  held := by
    have hlive : ∀ key ∈ volume.children directory,
        (volume.table.live? key).isSome = true := by
      intro key member
      obtain ⟨⟨id, hid⟩, -⟩ := mem_children.mp member
      rw [hid]
      rfl
    generalize volume.children directory = keys at hlive
    induction keys with
    | nil => rfl
    | cons key rest ih =>
        obtain ⟨id, hid⟩ := Option.isSome_iff_exists.mp (hlive key List.mem_cons_self)
        rw [List.filterMap_cons_some hid, List.map_cons, List.map_cons, hid,
          ih fun other member => hlive other (List.mem_cons_of_mem key member)]

namespace Catalogue

variable {keys : List Path} {nodes : List NodeId} {id : NodeId}
  (h : volume.Catalogue directory keys nodes)

include h

theorem length_eq : keys.length = nodes.length := by
  have hlength := congrArg List.length h.held
  simpa using hlength

/-- A node of a listing stands under the key in the same place. -/
theorem live?_of_mem_zip (member : (key, id) ∈ keys.zip nodes) :
    volume.table.live? key = some id := by
  obtain ⟨index, hindex, hentry⟩ := List.getElem_of_mem member
  rw [List.getElem_zip, Prod.mk.injEq] at hentry
  have hplace : index < (keys.map volume.table.live?).length := by
    simp only [List.length_zip, List.length_map] at hindex ⊢
    omega
  have hheld := List.getElem_of_eq h.held hplace
  rwa [List.getElem_map, List.getElem_map, hentry.1, hentry.2] at hheld

/-- What gives each node of a listing its key gives the keys in order. -/
theorem map_eq {name : NodeId → Path}
    (hname : ∀ key id, (key, id) ∈ keys.zip nodes → name id = key) : nodes.map name = keys := by
  apply List.ext_getElem
  · rw [List.length_map, h.length_eq]
  · intro index hnode hkey
    have hplace : index < (keys.zip nodes).length := by
      simp only [List.length_zip, List.length_map] at hnode ⊢
      omega
    have hentry := List.getElem_mem hplace
    rw [List.getElem_zip] at hentry
    rw [List.getElem_map]
    exact hname _ _ hentry

theorem mem_nodes_iff : id ∈ nodes ↔ ∃ key ∈ keys, volume.table.live? key = some id := by
  have hmem : some id ∈ keys.map volume.table.live? ↔ some id ∈ nodes.map some := by rw [h.held]
  rw [List.mem_map, List.mem_map] at hmem
  simpa using hmem.symm

end Catalogue

/-- The node of a directory has the path of the directory. -/
theorem Sound.path_of_directory {heap : Heap} (h : volume.Sound heap) {id : NodeId}
    (hlive : volume.live? directory = some id) (hkind : (heap.get id).isDirectory = true) :
    (heap.get id).path = directory := by
  by_cases hroot : directory = Path.root
  · subst hroot
    rw [live?_root] at hlive
    cases hlive
    exact h.root_path
  · rw [live?_of_ne_root hroot] at hlive
    exact h.ownPath directory id hlive (by simp [Node.isFile, hkind])

end Volume

namespace State

variable {state between : State} {call : Call} {directory : Path} {reply : Reply}

open Volume

theorem answer_looksUp_iff (h : state.volume.Calm) {path : Path} (hlooks : call.LooksUp path) :
    call.answer state = .ok reply ↔
      ∃ id, state.volume.live? path = some id ∧ reply = .listing ⟨[id]⟩ := by
  obtain ⟨hservice, rfl⟩ := hlooks
  simp only [answer_ok_iff h, Call.plan, hservice, Plan.lstat, Query.outcome_bind_eq_ok,
    Plan.outcome_lookUp_eq_ok]
  constructor
  · rintro ⟨change, id, hlive, hpure⟩
    cases hpure
    exact ⟨id, hlive, rfl⟩
  · rintro ⟨id, hlive, rfl⟩
    exact ⟨.keep, id, hlive, rfl⟩

/-- A path that leads to a directory is answered with the children of the directory, and
no other path is. -/
theorem answer_lists_iff (h : state.volume.Calm) (hlists : call.Lists directory) :
    call.answer state = .ok reply ↔
      ∃ id, state.volume.Leads state.heap directory id ∧
        (state.heap.get id).isDirectory = true ∧
        reply = .listing
          ⟨(state.volume.children (state.heap.get id).path).filterMap
            state.volume.table.live?⟩ := by
  obtain ⟨hservice, hmethod, rfl⟩ := hlists
  simp only [answer_ok_iff h, Call.plan, hservice, Plan.list, hmethod,
    Query.outcome_bind_eq_ok, Plan.outcome_resolve_eq_ok, Plan.outcome_node_eq_ok]
  constructor
  · rintro ⟨change, id, hleads, node, rfl, hrest⟩
    split at hrest
    · rename_i hkind
      simp only [Query.outcome_bind_eq_ok, Plan.outcome_volume_eq_ok] at hrest
      obtain ⟨_, rfl, hpure⟩ := hrest
      cases hpure
      exact ⟨id, hleads, hkind, rfl⟩
    · cases hrest
  · rintro ⟨id, hleads, hkind, rfl⟩
    refine ⟨.keep, id, hleads, _, rfl, ?_⟩
    rw [if_pos hkind]
    rfl

/-- A directory that is listed answers with its children, and nothing else is. -/
theorem answer_lists (h : state.volume.Enclosed state.heap) (hlists : call.Lists directory) :
    call.answer state = .ok reply ↔ state.volume.HoldsDirectory state.heap directory ∧
      reply = .listing
        ⟨(state.volume.children directory).filterMap state.volume.table.live?⟩ := by
  simp only [answer_lists_iff h.toCalm hlists, h.leads_iff]
  constructor
  · rintro ⟨id, hlive, hkind, rfl⟩
    rw [h.path_of_directory hlive hkind]
    exact ⟨⟨id, hlive, hkind⟩, rfl⟩
  · rintro ⟨⟨id, hlive, hkind⟩, rfl⟩
    exact ⟨id, hlive, hkind, by rw [h.path_of_directory hlive hkind]⟩

/-- Listing changes neither the volume nor the heap. -/
theorem served_lists (h : state.volume.Calm) (hlists : call.Lists directory)
    (hanswer : call.answer state = .ok reply) :
    (state.serve call).volume = state.volume ∧ (state.serve call).heap = state.heap := by
  obtain ⟨change, hmakes, -, hvolume, hheap⟩ := served_of_answer_ok h hanswer
  unfold Call.Makes at hmakes
  rw [hlists.1] at hmakes
  rw [hvolume, hheap, hmakes]
  exact ⟨rfl, rfl⟩

theorem Reached.kept (h : state.volume.Calm) (hreached : state.Reached between directory) :
    between.volume = state.volume ∧ between.heap = state.heap := by
  induction hreached with
  | root => exact ⟨rfl, rfl⟩
  | listed reached lists answered member isDirectory ih =>
      obtain ⟨hvolume, hheap⟩ := ih
      obtain ⟨hserved, hsame⟩ := served_lists (hvolume ▸ h) lists answered
      exact ⟨hserved.trans hvolume, hsame.trans hheap⟩

/-- Listing after listing comes to every directory: to a directory after its parent,
whose path is shorter. -/
theorem reached_of_enclosed (h : state.volume.Enclosed state.heap) {path : Path}
    (hholds : state.volume.HoldsDirectory state.heap path) :
    ∃ after, state.Reached after path := by
  induction hlength : path.length using Nat.strong_induction_on generalizing path with
  | _ length ih =>
    obtain ⟨id, hlive, hkind⟩ := hholds
    by_cases hroot : path = Path.root
    · subst hroot
      exact ⟨state, .root⟩
    · have hheld := hlive
      rw [live?_of_ne_root hroot] at hheld
      have hrooted := h.rooted path id hheld
      obtain ⟨directory, hparent, hdirectory⟩ := h.enclosed path id hheld
      have hshorter := hrooted.length_parent_lt (h.live?_rooted hparent)
      obtain ⟨between, hreached⟩ :=
        ih path.parent.length (hlength ▸ hshorter) ⟨directory, hparent, hdirectory⟩ rfl
      obtain ⟨hvolume, hheap⟩ := hreached.kept h.toCalm
      have hbetween : between.volume.Enclosed between.heap := by
        rw [hvolume, hheap]
        exact h
      have hlists : Call.Lists ⟨.list, { method := .list, path := path.parent }⟩ path.parent :=
        ⟨rfl, rfl, rfl⟩
      have hanswer := (answer_lists hbetween hlists).mpr
        ⟨by rw [hvolume, hheap]; exact ⟨directory, hparent, hdirectory⟩, rfl⟩
      have member : id ∈ (between.volume.children path.parent).filterMap
          between.volume.table.live? := by
        rw [hvolume]
        exact List.mem_filterMap.mpr ⟨path, mem_children.mpr ⟨⟨id, hheld⟩, rfl⟩, hheld⟩
      have hkind' : (between.node id).isDirectory = true := by
        unfold node
        rw [hheap]
        exact hkind
      have hpath : (between.node id).path = path := by
        unfold node
        rw [hheap]
        exact h.path_of_directory hlive hkind
      have hnext := Reached.listed hreached hlists hanswer member hkind'
      rw [hpath] at hnext
      exact ⟨_, hnext⟩

/-- What listings tell after every run without commands for symbolic links. The parent
of each entry is the root or an entry that is a directory, and it can be listed. Each
listing holds the nodes of the entries right in the directory and of no others, one
for each key and in the order of the keys. By listing one comes from the root to every
directory. -/
theorem catalogue_kept (settings : Settings) (calls : List Call)
    (hcalls : ∀ call ∈ calls, ¬call.Commands .symlink) :
    let state := (State.start settings).run calls
    (∀ key id, state.volume.table.live? key = some id →
        (key.parent = Path.root ∨ ∃ directory : NodeId,
          state.volume.table.live? key.parent = some directory ∧
            (state.node directory).isDirectory = true) ∧
          ∀ call : Call, call.Lists key.parent →
            ∃ listing : Listing, call.answer state = .ok (.listing listing) ∧ id ∈ listing.nodes) ∧
      (∀ (call : Call) (directory : Path) (listing : Listing), call.Lists directory →
        call.answer state = .ok (.listing listing) →
          ∃ keys, state.volume.Catalogue directory keys listing.nodes) ∧
      ∀ path id, state.volume.live? path = some id → (state.node id).isDirectory = true →
        ∃ after, state.Reached after path := by
  intro state
  have h : state.volume.Enclosed state.heap := enclosed_run (enclosed_start settings) hcalls
  refine ⟨?_, ?_, ?_⟩
  · intro key id hlive
    have hparent := h.enclosed key id hlive
    constructor
    · obtain ⟨directory, hheld, hkind⟩ := hparent
      by_cases hroot : key.parent = Path.root
      · exact Or.inl hroot
      · rw [live?_of_ne_root hroot] at hheld
        exact Or.inr ⟨directory, hheld, hkind⟩
    · intro call hlists
      refine ⟨_, (answer_lists h hlists).mpr ⟨hparent, rfl⟩, ?_⟩
      exact List.mem_filterMap.mpr ⟨key, mem_children.mpr ⟨⟨id, hlive⟩, rfl⟩, hlive⟩
  · intro call directory listing hlists hanswer
    obtain ⟨-, hlisting⟩ := (answer_lists h hlists).mp hanswer
    cases hlisting
    exact ⟨_, state.volume.catalogue_children directory⟩
  · intro path id hlive hkind
    exact reached_of_enclosed h ⟨id, hlive, hkind⟩

/-- A directory whose path has two slashes in a row. -/
def innerMade : Call :=
  ⟨.command, { method := .mkdir, path := ['/', 'd', '/', '/', 'e'] }⟩

/-- A file of a directory, under a second name in the inner one. -/
def innerShared : List Call :=
  let file : Path := ['/', 'd', '/', 'a']
  let second : Path := ['/', 'd', '/', '/', 'e', '/', 'b']
  [directoryMade, innerMade, ⟨.write, { method := .put, path := file }⟩,
    ⟨.command, { method := .link, path := file, target := second }⟩]

/-- The file is listed once with either directory, and one comes to both. -/
theorem catalogue_of_shared_file :
    let state := (State.start {}).run innerShared
    (∃ listing : Listing,
        Call.answer ⟨.list, { method := .list, path := ['/', 'd', '/', '/', 'e'] }⟩ state =
            .ok (.listing listing) ∧
          (⟨3⟩ : NodeId) ∈ listing.nodes) ∧
      (∃ keys, state.volume.Catalogue ['/', 'd'] keys [⟨2⟩, ⟨3⟩]) ∧
      ∃ after, state.Reached after ['/', 'd', '/', '/', 'e'] := by
  intro state
  obtain ⟨hentries, hlistings, hreached⟩ := catalogue_kept {} innerShared (by decide)
  refine ⟨?_, ?_, hreached _ ⟨2⟩ (by decide +kernel) (by decide +kernel)⟩
  · obtain ⟨-, hlisted⟩ := hentries ['/', 'd', '/', '/', 'e', '/', 'b'] ⟨3⟩ (by decide +kernel)
    exact hlisted _ ⟨rfl, rfl, by decide⟩
  · exact hlistings ⟨.list, { method := .list, path := ['/', 'd'] }⟩ ['/', 'd']
      ⟨[⟨2⟩, ⟨3⟩]⟩ ⟨rfl, rfl, rfl⟩ rfl

end State

end FlatTree
