import FlatTree.Proofs.Catalogue

/-!
The paths that a listing shows. The entries of a directory are picked and put in order by
their keys, while what is shown of an entry is the path of its node: the one that the node
was made under or was moved to last. For a node under one key the two are the same. Only a
hard link puts a node under a second key; then one path stands for all its keys, and when
the entry of that path is removed, the others are listed under it still.
-/

namespace FlatTree

namespace Volume

/-- No key holds the node but the path that the node has. -/
def KeyedByPath (volume : Volume) (heap : Heap) (id : NodeId) : Prop :=
  ∀ key, volume.table.live? key = some id → (heap.get id).path = key

end Volume

namespace State

/-- The paths that the nodes of a listing have. -/
def shown (state : State) (listing : Listing) : List Path :=
  listing.nodes.map fun id => (state.node id).path

/-- A listing shows the entries of a directory by their names: paths in strict code point
order, right in the directory, and each looked up finds the node that shows it. -/
structure NamesEntries (state : State) (directory : NodeId) (listing : Listing) : Prop where
  ordered : (state.shown listing).Pairwise fun first second =>
    first.le second = true ∧ first ≠ second
  parent : ∀ path ∈ state.shown listing, path.parent = (state.node directory).path
  found : ∀ id ∈ listing.nodes, ∀ call : Call, call.LooksUp (state.node id).path →
    call.answer state = .ok (.listing ⟨[id]⟩)

/-- One of the calls was an answered hard link of a path that led to the node. -/
def Linked (state : State) (calls : List Call) (id : NodeId) : Prop :=
  ∃ earlier call later, calls = earlier ++ call :: later ∧ call.Commands .link ∧
    (state.run earlier).volume.Leads (state.run earlier).heap call.request.path id ∧
    ∃ reply, call.answer (state.run earlier) = .ok reply

variable {state : State} {change : Change} {call : Call} {calls : List Call}
  {id directory : NodeId} {keys : List Path} {listing : Listing}

/-- Every permitted change but a second key for the node leaves it keyed by its path. -/
theorem keyedByPath_commit (h : state.volume.Sound state.heap)
    (hpermitted : change.Permitted state.volume state.heap)
    (hshare : ∀ target path, change ≠ .share target path id)
    (hown : state.volume.KeyedByPath state.heap id) :
    (state.commit change).volume.KeyedByPath (state.commit change).heap id := by
  have hnew : ∀ node record, (state.commit (.add node record)).volume.KeyedByPath
      (state.commit (.add node record)).heap id := by
    intro node record key hlive
    rw [live?_add] at hlive
    split at hlive
    · rename_i hkey
      cases hlive
      rw [get_add, if_pos rfl, hkey]
    · rw [get_add_of_made (h.made_of_live? hlive)]
      exact hown key hlive
  have hfits := hpermitted.fits
  cases hpermitted with
  | keep => exact hown
  | rewrite leads cut =>
      intro key hlive
      rw [get_rewrite]
      split
      · rename_i hid
        rw [(Node.truncate_eq_ok cut).2, ← hid]
        exact hown key hlive
      · exact hown key hlive
  | file | directory | link => exact hnew _ _
  | share =>
      intro key hlive
      rw [live?_share] at hlive
      split at hlive
      · cases hlive
        exact absurd rfl (hshare _ _)
      · exact hown key hlive
  | move => exact fun key hlive => Heap.path_relocate hfits hown hlive
  | remove =>
      intro key hlive
      rw [volume_remove, Table.live?_erase] at hlive
      rw [heap_remove]
      split at hlive
      · cases hlive
      · exact hown key hlive

theorem keyedByPath_serve (h : state.volume.Sound state.heap)
    (hlinked : ¬state.Linked [call] id) (hown : state.volume.KeyedByPath state.heap id) :
    (state.serve call).volume.KeyedByPath (state.serve call).heap id := by
  cases hanswer : call.answer state with
  | error refusal =>
      obtain ⟨hvolume, hheap⟩ := served_of_answer_error h.toCalm hanswer
      rw [hvolume, hheap]
      exact hown
  | ok reply =>
      obtain ⟨change, hmakes, hpermitted, hvolume, hheap⟩ := served_of_answer_ok h.toCalm hanswer
      rw [hvolume, hheap]
      refine keyedByPath_commit h hpermitted ?_ hown
      rintro target path rfl
      have hcommand := hmakes.commands_link rfl
      obtain ⟨_, hshare⟩ := hmakes.of_link hcommand
      cases hshare
      cases hpermitted with
      | share leads => exact hlinked ⟨[], call, [], rfl, hcommand, leads, reply, hanswer⟩

/-- A node that no hard link has reached is keyed by its path after a run if it was so
before. -/
theorem keyedByPath_run (h : state.volume.Sound state.heap) (hlinked : ¬state.Linked calls id)
    (hown : state.volume.KeyedByPath state.heap id) :
    (state.run calls).volume.KeyedByPath (state.run calls).heap id := by
  induction calls generalizing state with
  | nil => exact hown
  | cons call rest ih =>
      apply ih (sound_serve h call)
      · rintro ⟨earlier, other, later, rfl, hlink⟩
        exact hlinked ⟨call :: earlier, other, later, rfl, hlink⟩
      · apply keyedByPath_serve h _ hown
        rintro ⟨earlier, other, later, hsplit, hlink⟩
        cases earlier with
        | nil =>
            cases hsplit
            exact hlinked ⟨[], call, rest, rfl, hlink⟩
        | cons first earlier => simp at hsplit

theorem not_linked (hcalls : ∀ call ∈ calls, ¬call.Commands .link) : ¬state.Linked calls id := by
  rintro ⟨earlier, call, later, rfl, hlink, -⟩
  exact hcalls call (List.mem_append_right earlier List.mem_cons_self) hlink

/-- A listing shows the entries by their names just when it shows their keys. -/
theorem namesEntries_iff (h : state.volume.Sound state.heap)
    (hcatalogue : state.volume.Catalogue (state.node directory).path keys listing.nodes) :
    state.NamesEntries directory listing ↔ state.shown listing = keys := by
  constructor
  · intro hnames
    -- A path that is shown is a key, since looking it up finds an entry other than the root.
    have hsubset : state.shown listing ⊆ keys := by
      intro path member
      obtain ⟨id, hlisted, rfl⟩ := List.mem_map.mp member
      obtain ⟨key, -, hkey⟩ := hcatalogue.mem_nodes_iff.mp hlisted
      obtain ⟨found, hlive, hfound⟩ := (answer_looksUp_iff h.toCalm ⟨rfl, rfl⟩).mp
        (hnames.found id hlisted ⟨.lstat, ⟨.stat, (state.node id).path, [], {}, {}⟩⟩ ⟨rfl, rfl⟩)
      cases hfound
      have hroot : (state.node id).path ≠ Path.root := by
        intro hroot
        rw [hroot, Volume.live?_root] at hlive
        exact h.ne_root hkey (Option.some.inj hlive).symm
      rw [Volume.live?_of_ne_root hroot] at hlive
      exact (hcatalogue.member _).mpr ⟨⟨id, hlive⟩, hnames.parent _ member⟩
    have hnodup : (state.shown listing).Nodup := hnames.ordered.imp fun hlt => hlt.2
    have hperm : (state.shown listing).Perm keys := by
      refine (List.subperm_of_subset hnodup hsubset).perm_of_length_le ?_
      rw [hcatalogue.length_eq, shown, List.length_map]
    apply hperm.eq_of_pairwise _ hnames.ordered hcatalogue.ordered
    exact fun first second _ _ hle hge => Path.le_antisymm hle.1 hge.1
  · intro hshown
    have hheld : ∀ id ∈ listing.nodes,
        state.volume.table.live? (state.node id).path = some id := by
      have hmap := hcatalogue.held
      rw [← hshown, shown, List.map_map] at hmap
      exact List.map_inj_left.mp hmap
    refine ⟨hshown ▸ hcatalogue.ordered, ?_, ?_⟩
    · intro path member
      exact ((hcatalogue.member path).mp (hshown ▸ member)).2
    · intro id member look hlooks
      have hlive := hheld id member
      refine (answer_looksUp_iff h.toCalm hlooks).mpr ⟨id, ?_, rfl⟩
      rwa [Volume.live?_of_ne_root (h.rooted _ id hlive).ne_root]

/-- What a directory listing shows, in every store after a run. There is one element for
each entry right in the directory that the path leads to, in strict order of the keys, and
looking up a key finds the element in its place. An element shows its key if it is no
regular file, or if no hard link of the run has reached it. So a listing of such elements
shows the entries of the directory by their names, and any listing does just when all its
elements show their keys. -/
theorem listing_shows_keys (settings : Settings) (calls : List Call) (call : Call)
    (path : Path) (listing : Listing) :
    let start := State.start settings
    let state := start.run calls
    let single := fun id => (state.node id).isFile = false ∨ ¬start.Linked calls id
    call.Lists path → call.answer state = .ok (.listing listing) →
      ∃ directory keys,
        state.volume.Leads state.heap path directory ∧
        (state.node directory).isDirectory = true ∧
        state.volume.Catalogue (state.node directory).path keys listing.nodes ∧
        (∀ key id, (key, id) ∈ keys.zip listing.nodes →
          (∀ look : Call, look.LooksUp key → look.answer state = .ok (.listing ⟨[id]⟩)) ∧
          (single id → (state.node id).path = key)) ∧
        (state.NamesEntries directory listing ↔ state.shown listing = keys) ∧
        ((∀ id ∈ listing.nodes, single id) → state.NamesEntries directory listing) := by
  intro start state single hlists hanswer
  have h : state.volume.Sound state.heap := (sound_run (sound_start settings) calls).1
  have hown : ∀ {id}, single id → state.volume.KeyedByPath state.heap id := by
    rintro id (hkind | hlinked)
    · exact fun key hlive => h.ownPath key id hlive hkind
    · apply keyedByPath_run (sound_start settings) hlinked
      intro key hlive
      cases hlive
  obtain ⟨directory, hleads, hkind, hreply⟩ := (answer_lists_iff h.toCalm hlists).mp hanswer
  cases hreply
  have hcatalogue := state.volume.catalogue_children (state.heap.get directory).path
  have hnames : state.NamesEntries directory _ ↔ _ := namesEntries_iff h hcatalogue
  refine ⟨directory, _, hleads, hkind, hcatalogue, ?_, hnames, ?_⟩
  · intro key id member
    have hlive := hcatalogue.live?_of_mem_zip member
    refine ⟨fun look hlooks => ?_, fun hsingle => hown hsingle key hlive⟩
    refine (answer_looksUp_iff h.toCalm hlooks).mpr ⟨id, ?_, rfl⟩
    rwa [Volume.live?_of_ne_root (h.rooted key id hlive).ne_root]
  · intro hsingle
    apply hnames.mpr
    apply hcatalogue.map_eq
    intro key id member
    exact hown (hsingle id (List.of_mem_zip member).2) key (hcatalogue.live?_of_mem_zip member)

/-- A file in the directory that is going to be renamed. -/
def innerFileMade : Call := ⟨.write, { method := .put, path := ['/', 'd', '/', 'f'] }⟩

/-- The entries of the renamed directory. -/
def renamedListed : Call := ⟨.list, { method := .list, path := ['/', 'e'] }⟩

/-- After a rename of its directory the file is listed under its new name. -/
theorem renamed_listing_names_entries :
    let state := (State.start {}).run [directoryMade, innerFileMade, directoryRenamed]
    renamedListed.answer state = .ok (.listing ⟨[⟨2⟩]⟩) ∧
      state.shown ⟨[⟨2⟩]⟩ = [['/', 'e', '/', 'f']] ∧
      state.NamesEntries ⟨1⟩ ⟨[⟨2⟩]⟩ := by
  intro state
  have hanswer : renamedListed.answer state = .ok (.listing ⟨[⟨2⟩]⟩) := rfl
  obtain ⟨directory, keys, hleads, -, -, -, -, hnames⟩ := listing_shows_keys {}
    [directoryMade, innerFileMade, directoryRenamed] renamedListed ['/', 'e'] ⟨[⟨2⟩]⟩
    ⟨rfl, rfl, rfl⟩ hanswer
  have hdirectory : state.volume.Leads state.heap ['/', 'e'] ⟨1⟩ := by
    unfold Volume.Leads
    decide +kernel
  cases hleads.unique hdirectory
  exact ⟨hanswer, by decide +kernel, hnames fun id _ => Or.inr (not_linked (by decide))⟩

/-- A third name for the file, beside the second. -/
def fileLinkedAgain : Call :=
  ⟨.command, { method := .link, path := ['/', 'a'], target := ['/', 'd', '/', 'c'] }⟩

/-- The entries of the directory with the two names. -/
def directoryListed : Call := ⟨.list, { method := .list, path := ['/', 'd'] }⟩

/-- A file keeps its first path while it is listed under its two other names. The path is
shown twice, its parent is not the directory, and there is no entry with it any more. -/
theorem lost_name_listed :
    let state := (State.start {}).run
      [fileMade, directoryMade, fileLinked, fileLinkedAgain, firstNameRemoved]
    let listing : Listing := ⟨[⟨1⟩, ⟨1⟩]⟩
    directoryListed.Lists ['/', 'd'] ∧ directoryListed.answer state = .ok (.listing listing) ∧
      state.volume.Leads state.heap ['/', 'd'] ⟨2⟩ ∧ (state.node ⟨2⟩).path = ['/', 'd'] ∧
      state.shown listing = [['/', 'a'], ['/', 'a']] ∧
      Path.parent ['/', 'a'] ≠ ['/', 'd'] ∧
      (∀ look : Call, look.LooksUp ['/', 'a'] →
        ∀ reply, look.answer state ≠ .ok reply) ∧
      ¬state.NamesEntries ⟨2⟩ listing := by
  intro state listing
  have hcalm : state.volume.Calm :=
    (sound_run (sound_start {})
      [fileMade, directoryMade, fileLinked, fileLinkedAgain, firstNameRemoved]).1.toCalm
  have hshown : state.shown listing = [['/', 'a'], ['/', 'a']] := by decide +kernel
  have hleads : state.volume.Leads state.heap ['/', 'd'] ⟨2⟩ := by
    unfold Volume.Leads
    decide +kernel
  refine ⟨⟨rfl, rfl, rfl⟩, rfl, hleads, by decide +kernel, hshown, by decide, ?_, ?_⟩
  · intro look hlooks reply hanswer
    obtain ⟨id, hlive, -⟩ := (answer_looksUp_iff hcalm hlooks).mp hanswer
    have hfree : state.volume.live? ['/', 'a'] = none := by decide +kernel
    cases hfree.symm.trans hlive
  · intro hnames
    have hordered := hnames.ordered
    rw [hshown] at hordered
    simp at hordered

end State

end FlatTree
