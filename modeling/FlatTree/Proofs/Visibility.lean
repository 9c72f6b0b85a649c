import FlatTree.Proofs.Catalogue
import FlatTree.Proofs.Destination
import FlatTree.Proofs.Opening

/-!
Where a new entry is listed. An entry is kept under the key that the call gave for it, while
a listing first follows links to a directory and then picks the keys whose parent is the path
of that directory. So an entry is listed with the parent that its key names when that parent
is a directory itself. When the parent is a symbolic link, its listing is that of the
directory behind the link, which the key of the entry does not name.
-/

namespace FlatTree

/-- The key under which a call, if it is answered, puts an entry: a new one, or the one that
a rename names. -/
inductive Call.Creates (call : Call) (state : State) : Path → Prop
  | puts {key : Path} (puts : call.Puts state key) : Creates call state key
  | moves (rename : call.Commands .rename) : Creates call state call.request.target

namespace Volume

variable {volume : Volume} {heap : Heap} {path : Path} {id : NodeId}

theorem mem_trail_self (volume : Volume) (heap : Heap) (path : Path) :
    path ∈ (volume.resolve heap path).trail := by
  unfold resolve
  refine volume.search_induction heap (motive := fun _ path search => path ∈ search.trail)
    ?_ ?_ ?_ ?_ _ path <;> simp

/-- A path that leads to a directory is the path of it just when no link is on the way. -/
theorem Sound.path_eq_iff (h : volume.Sound heap) (hleads : volume.Leads heap path id)
    (hkind : (heap.get id).isDirectory = true) :
    (heap.get id).path = path ↔ volume.HoldsDirectory heap path := by
  constructor
  · intro hpath
    obtain ⟨stop, hstop⟩ := hleads.held
    rw [h.path_of_directory hstop hkind] at hpath
    exact ⟨id, hpath ▸ hstop, hkind⟩
  · rintro ⟨held, hlive, hdirectory⟩
    cases hleads.unique (leads_of_live? hlive (h.oneKind held hdirectory))
    exact h.path_of_directory hlive hkind

/-- A path that leads to a directory holds it or a link. -/
theorem Leads.holdsDirectory_or_link (hleads : volume.Leads heap path id)
    (hkind : (heap.get id).isDirectory = true) :
    volume.HoldsDirectory heap path ∨
      ∃ link, volume.live? path = some link ∧ (heap.get link).isLink = true := by
  obtain ⟨held, hheld⟩ := hleads.occupied
  cases hlink : (heap.get held).isLink with
  | true => exact Or.inr ⟨held, hheld, hlink⟩
  | false =>
      cases hleads.unique (leads_of_live? hheld hlink)
      exact Or.inl ⟨id, hheld, hkind⟩

theorem HoldsDirectory.hasParent (h : volume.Sound heap)
    (hholds : volume.HoldsDirectory heap path.parent) : volume.HasParent heap path := by
  obtain ⟨id, hlive, hkind⟩ := hholds
  exact ⟨id, leads_of_live? hlive (h.oneKind id hkind), hkind⟩

end Volume

/-- What was found of the parent of a new node. -/
theorem Change.Permitted.hasParent_of_add {volume : Volume} {heap : Heap} {change : Change}
    (h : change.Permitted volume heap) (hsound : volume.Sound heap) {node : Node}
    {record : Record} (hchange : change = .add node record) :
    volume.HasParent heap node.path := by
  cases h with
  | file free held directory =>
      cases hchange
      exact Volume.HoldsDirectory.hasParent hsound ⟨_, held, directory⟩
  | directory parent free =>
      cases hchange
      exact parent
  | link leads free parent =>
      cases hchange
      exact parent
  | _ => cases hchange

namespace State

variable {state : State} {call : Call} {key : Path} {id directory : NodeId} {reply : Reply}

open Volume

/-- A call that puts an entry takes nothing away from a parent that is a directory. -/
theorem not_displaces_of_creates (h : state.volume.Sound state.heap)
    (hanswer : call.answer state = .ok reply) (hcreates : call.Creates state key)
    (hkept : state.volume.HoldsDirectory state.heap key.parent ∨ (call.Commands .rename →
      ∀ stop ∈ (state.volume.resolve state.heap key.parent).trail,
        ¬state.volume.Carries state.heap call.request.path stop)) :
    ∀ stop ∈ (state.volume.resolve state.heap key.parent).trail, ¬call.Displaces state stop := by
  intro stop member
  cases hcreates with
  | puts hputs => exact not_displaces_of_puts hputs stop
  | moves rename =>
      rw [displaces_rename_iff rename]
      rcases hkept with hholds | hkept
      · rw [trail_of_directory h hholds, List.mem_singleton] at member
        subst member
        exact not_carries_parent h hanswer rename hholds
      · exact hkept rename stop member

theorem held_of_creates (h : state.volume.Sound state.heap)
    (hanswer : call.answer state = .ok reply) (hcreates : call.Creates state key) :
    ∃ id, (state.serve call).volume.table.live? key = some id := by
  cases hcreates with
  | puts hputs =>
      obtain ⟨-, id, hlive, -⟩ := served_puts h hanswer hputs
      exact ⟨id, hlive⟩
  | moves rename =>
      obtain ⟨held, hapart, hheld, -⟩ := served_rename h hanswer rename
      rw [live?_of_ne_root hapart] at hheld
      refine ⟨held, live?_of_newKey? h hheld ?_⟩
      rw [Call.newKey?_rename hanswer rename, if_pos Carries.self, Path.rebase_self]

/-- The parent of an entry leads to a directory when the entry is made or moved. -/
theorem hasParent_of_creates (h : state.volume.Sound state.heap)
    (hanswer : call.answer state = .ok reply) (hcreates : call.Creates state key) :
    state.volume.HasParent state.heap key := by
  cases hcreates with
  | puts hputs =>
      obtain ⟨change, hmakes, hpermitted, -⟩ := served_of_answer_ok h.toCalm hanswer
      rcases change_of_puts hmakes hputs with ⟨-, -, node, record, rfl, rfl⟩ | ⟨-, id, rfl⟩
      · exact hpermitted.hasParent_of_add h rfl
      · cases hpermitted with
        | share leads plain free parent => exact parent
  | moves rename =>
      obtain ⟨-, -, -, -, hparent⟩ := checked_rename h.toCalm hanswer rename
      exact hparent

/-- A file is made in a directory, no link followed. -/
theorem holdsDirectory_of_writes (hanswer : call.answer state = .ok reply)
    (hwrites : call.Writes) (hcreates : call.Creates state key) :
    state.volume.HoldsDirectory state.heap key.parent := by
  have hfile : key = call.request.path ∧ state.volume.live? call.request.path = none := by
    cases hcreates with
    | moves rename => exact absurd rename hwrites.not_commands
    | puts hputs =>
        cases hputs with
        | file _ free => exact ⟨rfl, free⟩
        | directory commands | share commands | link commands =>
            exact absurd commands hwrites.not_commands
  obtain ⟨rfl, hfree⟩ := hfile
  rcases writes_cases hwrites hanswer with ⟨id, -, hopens, -⟩ | ⟨-, -, -, hparent, -⟩
  · obtain ⟨held, hheld⟩ := hopens.leads.occupied
    cases hfree.symm.trans hheld
  · exact hparent

/-- No call makes an entry a directory or takes that from it. -/
theorem isDirectory_serve (h : state.volume.Sound state.heap) (call : Call) {path : Path}
    (hlive : state.volume.live? path = some id) :
    ((state.serve call).heap.get id).isDirectory = (state.heap.get id).isDirectory :=
  (sound_run h [call]).2.2.isDirectory id (h.made path id hlive)

/-- Whether a path holds a directory stays as it is when the path keeps its node. -/
theorem holdsDirectory_serve_iff (h : state.volume.Sound state.heap)
    (hanswer : call.answer state = .ok reply) {path : Path}
    (hlive : state.volume.live? path = some id) (hstays : ¬call.Displaces state path) :
    (state.serve call).volume.HoldsDirectory (state.serve call).heap path ↔
      state.volume.HoldsDirectory state.heap path := by
  have hafter := live?_serve h hanswer hlive
  rw [if_neg hstays] at hafter
  unfold HoldsDirectory
  simp only [hafter, hlive, Option.some.injEq, exists_eq_left', isDirectory_serve h call hlive]

/-- The listing of the parent of a key after a call that has put an entry there. The parent
led to a directory, and it was that directory or a link. It is listed after the call with the
entries right in the directory it led to, unless it was a link and the call is a rename that
took along a path on the way of the links. If the parent is a directory itself, the key is
among those that are listed, and so is its node. If the parent is a link, the key is not,
and its node is listed only if another key holds it. A file is made only in a directory, and
without commands for symbolic links every parent is one. -/
theorem created_entry_listed (settings : Settings) (calls : List Call) (call : Call)
    (reply : Reply) (key : Path) :
    let before := (State.start settings).run calls
    let after := before.serve call
    let direct := before.volume.HoldsDirectory before.heap key.parent
    let trail := (before.volume.resolve before.heap key.parent).trail
    call.answer before = .ok reply → call.Creates before key →
      ∃ id directory,
        after.volume.table.live? key = some id ∧
        before.volume.Leads before.heap key.parent directory ∧
        (before.node directory).isDirectory = true ∧
        (direct ∨ ∃ link, before.volume.live? key.parent = some link ∧
          (before.node link).isLink = true) ∧
        (direct ∨ (call.Commands .rename →
            ∀ stop ∈ trail, ¬before.volume.Carries before.heap call.request.path stop) →
          ∀ list : Call, list.Lists key.parent →
            ∃ listing keys, list.answer after = .ok (.listing listing) ∧
              after.volume.Catalogue (after.node directory).path keys listing.nodes ∧
              (key ∈ keys ↔ direct) ∧
              (direct → id ∈ listing.nodes) ∧
              (id ∈ listing.nodes ↔
                ∃ other ∈ keys, after.volume.table.live? other = some id)) ∧
        (call.Writes → direct) ∧
        ((∀ earlier ∈ calls, ¬earlier.Commands .symlink) → direct) := by
  intro before after direct trail hanswer hcreates
  have h : before.volume.Sound before.heap := (sound_run (sound_start settings) calls).1
  have hafter : after.volume.Sound after.heap := sound_serve h call
  obtain ⟨id, hid⟩ := held_of_creates h hanswer hcreates
  obtain ⟨directory, hleads, hkind⟩ := hasParent_of_creates h hanswer hcreates
  refine ⟨id, directory, hid, hleads, hkind, hleads.holdsDirectory_or_link hkind, ?_,
    fun hwrites => holdsDirectory_of_writes hanswer hwrites hcreates, ?_⟩
  · intro hkept list hlists
    have hstays := not_displaces_of_creates h hanswer hcreates hkept
    have hleads' := leads_serve h hanswer hleads hstays
    have hkind' : (after.heap.get directory).isDirectory = true := by
      obtain ⟨stop, hstop⟩ := hleads.held
      exact (isDirectory_serve h call hstop).trans hkind
    -- The key names the directory that is listed just when its parent is no link.
    have hparent : (after.heap.get directory).path = key.parent ↔ direct := by
      obtain ⟨held, hheld⟩ := hleads.occupied
      have hself := hstays _ (before.volume.mem_trail_self before.heap key.parent)
      exact (hafter.path_eq_iff hleads' hkind').trans
        (holdsDirectory_serve_iff h hanswer hheld hself)
    have hcatalogue := after.volume.catalogue_children (after.heap.get directory).path
    have hkey : key ∈ after.volume.children (after.heap.get directory).path ↔ direct := by
      rw [mem_children, ← hparent, and_iff_right ⟨id, hid⟩, eq_comm]
    refine ⟨_, _, (answer_lists_iff hafter.toCalm hlists).mpr ⟨directory, hleads', hkind', rfl⟩,
      hcatalogue, hkey, ?_, hcatalogue.mem_nodes_iff⟩
    intro hdirect
    exact hcatalogue.mem_nodes_iff.mpr ⟨key, hkey.mpr hdirect, hid⟩
  · intro hcalls
    have hclosed : before.volume.Enclosed before.heap :=
      enclosed_run (enclosed_start settings) hcalls
    exact hclosed.hasParent_iff.mp ⟨directory, hleads, hkind⟩

/-- A move of the file into the directory. -/
def fileMovedInside : Call :=
  ⟨.command, { method := .rename, path := ['/', 'a'], target := ['/', 'd', '/', 'f'] }⟩

def aliasListed : Call := ⟨.list, { method := .list, path := ['/', 'l'] }⟩

/-- The file is listed with the directory when it was moved there, and it is not listed with
the link to the directory when it was moved under the link. -/
theorem moved_file_listed :
    let before := (State.start {}).run [directoryMade, aliasMade, fileMade]
    (∃ listing : Listing, Call.answer ⟨.list, { method := .list, path := ['/', 'd'] }⟩
        (before.serve fileMovedInside) = .ok (.listing listing) ∧
          (⟨3⟩ : NodeId) ∈ listing.nodes) ∧
      ∃ listing : Listing, aliasListed.answer (before.serve fileEnclosed) =
        .ok (.listing listing) ∧ (⟨3⟩ : NodeId) ∉ listing.nodes := by
  intro before
  obtain ⟨id, _, hid, -, -, -, hinside, -⟩ := created_entry_listed {}
    [directoryMade, aliasMade, fileMade] fileMovedInside .done ['/', 'd', '/', 'f'] rfl
    (.moves ⟨rfl, rfl⟩)
  obtain ⟨other, _, hother, -, -, -, hbehind, -⟩ := created_entry_listed {}
    [directoryMade, aliasMade, fileMade] fileEnclosed .done ['/', 'l', '/', 'x'] rfl
    (.moves ⟨rfl, rfl⟩)
  have hmoved : (before.serve fileMovedInside).volume.table.live? ['/', 'd', '/', 'f'] =
      some ⟨3⟩ := by decide +kernel
  have hhidden : (before.serve fileEnclosed).volume.table.live? ['/', 'l', '/', 'x'] =
      some ⟨3⟩ := by decide +kernel
  cases hid.symm.trans hmoved
  cases hother.symm.trans hhidden
  have hdirect : before.volume.HoldsDirectory before.heap (Path.parent ['/', 'd', '/', 'f']) :=
    ⟨⟨1⟩, by decide +kernel, by decide +kernel⟩
  have hlink : ¬before.volume.HoldsDirectory before.heap
      (Path.parent ['/', 'l', '/', 'x']) := by
    rintro ⟨held, hlive, hkind⟩
    have hheld : before.volume.live? (Path.parent ['/', 'l', '/', 'x']) = some ⟨2⟩ := by
      decide +kernel
    cases hlive.symm.trans hheld
    revert hkind
    decide +kernel
  have honly : ∀ entry ∈ (before.serve fileEnclosed).volume.table.live, entry.2 = ⟨3⟩ →
      entry.1 = ['/', 'l', '/', 'x'] := by decide +kernel
  constructor
  · obtain ⟨listing, -, hanswer, -, -, hlisted, -⟩ := hinside (Or.inl hdirect)
      ⟨.list, { method := .list, path := ['/', 'd'] }⟩ ⟨rfl, rfl, by decide⟩
    exact ⟨listing, hanswer, hlisted hdirect⟩
  · obtain ⟨listing, keys, hanswer, -, hkey, -, hnodes⟩ := hbehind
      (Or.inr fun _ => by decide +kernel) aliasListed ⟨rfl, rfl, by decide⟩
    refine ⟨listing, hanswer, fun member => hlink ?_⟩
    obtain ⟨name, hname, hheld⟩ := hnodes.mp member
    obtain rfl : name = _ := honly _ (Table.mem_live.mpr hheld) rfl
    exact hkey.mp hname

/-- A directory that is made under a link is not listed with the link. -/
theorem entry_not_listed_behind_link :
    let before := (State.start {}).run [directoryMade, aliasMade]
    let after := before.serve linkedMade
    linkedMade.answer before = .ok .done ∧ linkedMade.Creates before ['/', 'l', '/', 'x'] ∧
      after.volume.table.live? ['/', 'l', '/', 'x'] = some ⟨3⟩ ∧
      aliasListed.Lists (Path.parent ['/', 'l', '/', 'x']) ∧
      aliasListed.answer after = .ok (.listing ⟨[]⟩) ∧
      ¬∃ listing : Listing, aliasListed.answer after = .ok (.listing listing) ∧
        (⟨3⟩ : NodeId) ∈ listing.nodes := by
  intro before after
  have hanswer : aliasListed.answer after = .ok (.listing ⟨[]⟩) := rfl
  refine ⟨rfl, .puts (.directory ⟨rfl, rfl⟩), by decide +kernel, ⟨rfl, rfl, by decide⟩, hanswer,
    ?_⟩
  rintro ⟨listing, hother, member⟩
  rw [hanswer] at hother
  cases hother
  cases member

end State

end FlatTree
