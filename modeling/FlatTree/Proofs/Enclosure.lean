import FlatTree.Proofs.Ancestry
import FlatTree.Proofs.Succession

/-!
Stores without symbolic links. As long as no command has made a link, every path
leads to its own node, and the parent of every entry is the root or an entry that
is a directory (`Volume.Enclosed`). A rename of a directory keeps this because it
takes along all that is under the directory; a removal keeps it because it finds
nothing there.
-/

namespace FlatTree

theorem Heap.Keeps.isLink {heap after : Heap} (h : heap.Keeps after) {id : NodeId}
    (hmade : id.index < heap.size) : (after.get id).isLink = (heap.get id).isLink := by
  unfold Node.isLink
  rw [h.target id hmade]

namespace Volume

/-- A directory stands under the path itself. -/
def HoldsDirectory (volume : Volume) (heap : Heap) (path : Path) : Prop :=
  ∃ id, volume.live? path = some id ∧ (heap.get id).isDirectory = true

/-- No entry is a link, and each entry stands right in a directory. -/
structure Enclosed (volume : Volume) (heap : Heap) : Prop extends volume.Sound heap where
  linkless : ∀ path id, volume.live? path = some id → (heap.get id).isLink = false
  enclosed : ∀ path id, volume.table.live? path = some id →
    volume.HoldsDirectory heap path.parent

variable {volume after : Volume} {heap other : Heap} {path source target key : Path}
  {id held : NodeId}

namespace Enclosed

/-- The root is no link in any store, so only the entries of the table count. -/
theorem of_table (hsound : volume.Sound heap)
    (hlinkless : ∀ path id, volume.table.live? path = some id →
      (heap.get id).isLink = false)
    (henclosed : ∀ path id, volume.table.live? path = some id →
      volume.HoldsDirectory heap path.parent) : volume.Enclosed heap := by
  refine ⟨hsound, ?_, henclosed⟩
  intro path id hlive
  by_cases hpath : path = Path.root
  · rw [hpath, live?_root] at hlive
    cases hlive
    exact hsound.oneKind volume.root hsound.root_isDirectory
  · rw [live?_of_ne_root hpath] at hlive
    exact hlinkless path id hlive

variable (h : volume.Enclosed heap)

include h

theorem plain (hkeeps : heap.Keeps other) (hlive : volume.table.live? path = some id) :
    (other.get id).isLink = false := by
  have hheld := hlive
  rw [← live?_of_ne_root (h.rooted path id hlive).ne_root] at hheld
  rw [hkeeps.isLink (h.made path id hheld)]
  exact h.linkless path id hheld

/-- Without links a path leads to its own node. -/
theorem leads_iff : volume.Leads heap path id ↔ volume.live? path = some id := by
  unfold Leads resolve
  cases hlive : volume.live? path with
  | none => simp [search_of_absent heap _ hlive]
  | some held => simp [search_of_not_isLink _ hlive (h.linkless path held hlive)]

theorem hasParent_iff : volume.HasParent heap path ↔
    volume.HoldsDirectory heap path.parent := by
  unfold HasParent HoldsDirectory
  simp only [h.leads_iff]

/-- A new entry right in a directory, without a link. -/
theorem put (hsound : after.Sound other) (hkeeps : heap.Keeps other)
    (hroot : after.root = volume.root)
    (hlive : ∀ key, after.table.live? key =
      if key = path then some id else volume.table.live? key)
    (hfree : volume.live? path = none)
    (hparent : volume.HoldsDirectory heap path.parent)
    (hplain : (other.get id).isLink = false) : after.Enclosed other := by
  have hstays : ∀ key held, volume.live? key = some held → after.live? key = some held := by
    intro key held hheld
    unfold live? at hheld ⊢
    split
    · rename_i hkey
      rw [if_pos hkey] at hheld
      rw [hroot, hheld]
    · rename_i hkey
      rw [if_neg hkey] at hheld
      rw [hlive, if_neg]
      · exact hheld
      · rintro rfl
        rw [table_free hfree] at hheld
        cases hheld
  have hdirectory : ∀ key, volume.HoldsDirectory heap key → after.HoldsDirectory other key := by
    rintro key ⟨directory, hheld, hkind⟩
    refine ⟨directory, hstays key directory hheld, ?_⟩
    rw [hkeeps.isDirectory directory (h.made key directory hheld), hkind]
  refine of_table hsound ?_ ?_
  · intro key held hheld
    rw [hlive] at hheld
    split at hheld
    · cases hheld
      exact hplain
    · exact h.plain hkeeps hheld
  · intro key held hheld
    rw [hlive] at hheld
    split at hheld
    · rename_i hkey
      rw [hkey]
      exact hdirectory _ hparent
    · exact hdirectory _ (h.enclosed key held hheld)

end Enclosed

/-- A rename takes along its source and, if that is a directory, every key below it. -/
theorem carries_iff : volume.Carries heap source key ↔
    key = source ∨ key.Under source ∧ volume.HoldsDirectory heap source := by
  unfold Carries HoldsDirectory
  rw [Option.any_eq_true]

/-- What a rename takes along of a directory it takes with all that is in it. -/
theorem Carries.of_parent (h : volume.Carries heap source path.parent)
    (hparent : volume.HoldsDirectory heap path.parent) (hrooted : path.parent.Rooted) :
    path.Under source ∧ volume.HoldsDirectory heap source := by
  have hunder := hrooted.under_parent
  rcases carries_iff.mp h with hsame | ⟨hbelow, hholds⟩
  · rw [hsame] at hunder hparent
    exact ⟨hunder, hparent⟩
  · exact ⟨hunder.trans_within (Or.inr hbelow), hholds⟩

namespace Enclosed

variable (h : volume.Enclosed heap)

include h

/-- Another front for an entry and what is under it. -/
theorem move (hsound : after.Sound other) (hkeeps : heap.Keeps other)
    (hroot : after.root = volume.root)
    (hlive : ∀ key id, after.table.live? key = some id ↔
      (∃ moved, volume.Carries heap source moved ∧ volume.table.live? moved = some id ∧
          moved.rebase source target = key) ∨
        (volume.table.live? key = some id ∧ ¬volume.Carries heap source key))
    (hsource : volume.table.live? source = some held) (htarget : target.Rooted)
    (houtside : ¬((heap.get held).isDirectory = true ∧ target.Under source))
    (hparent : volume.HoldsDirectory heap target.parent) : after.Enclosed other := by
  have hkind : ∀ {key id}, volume.live? key = some id →
      (heap.get id).isDirectory = true → (other.get id).isDirectory = true := by
    intro key id hheld hdirectory
    rw [hkeeps.isDirectory id (h.made key id hheld), hdirectory]
  -- A directory that is not taken along stays where it is.
  have hstays : ∀ {key}, volume.HoldsDirectory heap key →
      (key.Rooted → ¬volume.Carries heap source key) → after.HoldsDirectory other key := by
    rintro key ⟨id, hheld, hdirectory⟩ hnot
    refine ⟨id, ?_, hkind hheld hdirectory⟩
    by_cases hkey : key = Path.root
    · subst hkey
      rw [live?_root] at hheld ⊢
      rw [hroot, hheld]
    · rw [live?_of_ne_root hkey] at hheld ⊢
      exact (hlive key id).mpr (Or.inr ⟨hheld, hnot (h.rooted key id hheld)⟩)
  have hbeside : after.HoldsDirectory other target.parent := by
    refine hstays hparent fun hrooted hcarries => ?_
    obtain ⟨hunder, id, hid, hdirectory⟩ := hcarries.of_parent hparent hrooted
    rw [live?_of_ne_root (h.rooted source held hsource).ne_root, hsource] at hid
    cases hid
    exact houtside ⟨hdirectory, hunder⟩
  refine of_table hsound ?_ ?_
  · intro key id hheld
    rcases (hlive key id).mp hheld with ⟨moved, -, hmoved, -⟩ | ⟨hbefore, -⟩
    · exact h.plain hkeeps hmoved
    · exact h.plain hkeeps hbefore
  · intro key id hheld
    rcases (hlive key id).mp hheld with ⟨moved, hcarries, hmoved, rfl⟩ | ⟨hbefore, hnot⟩
    · rcases hcarries with rfl | ⟨hunder, hdirectory⟩
      · rw [Path.rebase_self]
        exact hbeside
      · obtain ⟨rest, rfl⟩ := Path.under_iff.mp hunder
        rw [Path.rebase_append]
        rcases Path.parent_append_cases rest with ⟨part, hpart⟩ | hfront
        · -- The parent is under the source as well, so it was taken along.
          obtain ⟨directory, hheld, hkept⟩ := hpart source ▸ h.enclosed _ id hmoved
          have hrooted := (h.rooted source held hsource).append ('/' :: part)
          rw [hpart target]
          refine ⟨directory, ?_, hkind hheld hkept⟩
          rw [live?_of_ne_root hrooted.ne_root] at hheld
          rw [live?_of_ne_root (htarget.append _).ne_root]
          refine (hlive _ directory).mpr (Or.inl ⟨source ++ '/' :: part, ?_, hheld, ?_⟩)
          · exact Or.inr ⟨Path.under_iff.mpr ⟨part, rfl⟩, hdirectory⟩
          · exact Path.rebase_append source target part
        · rcases hfront target htarget with hparent' | hparent'
          · rw [hparent']
            refine ⟨held, ?_, ?_⟩
            · rw [live?_of_ne_root htarget.ne_root]
              exact (hlive target held).mpr
                (Or.inl ⟨source, Carries.self, hsource, Path.rebase_self source target⟩)
            · have hheld := hsource
              rw [← live?_of_ne_root (h.rooted source held hsource).ne_root] at hheld
              rw [hheld] at hdirectory
              exact hkind hheld hdirectory
          · rw [hparent']
            exact hbeside
    · have hholds := h.enclosed key id hbefore
      refine hstays hholds fun hrooted hcarries => hnot ?_
      obtain ⟨hunder, hdirectory⟩ := hcarries.of_parent hholds hrooted
      exact carries_iff.mpr (Or.inr ⟨hunder, hdirectory⟩)

/-- Without an entry that had others under it. -/
theorem drop (hsound : after.Sound heap) (hroot : after.root = volume.root)
    (hlive : ∀ key, after.table.live? key =
      if key = path then none else volume.table.live? key)
    (hempty : ∀ id, volume.table.live? path = some id → volume.below path = []) :
    after.Enclosed heap := by
  refine of_table hsound ?_ ?_
  · intro key id hheld
    rw [hlive] at hheld
    split at hheld
    · cases hheld
    · exact h.plain (.refl heap) hheld
  · intro key id hheld
    rw [hlive] at hheld
    split at hheld
    · cases hheld
    · obtain ⟨directory, hparent, hdirectory⟩ := h.enclosed key id hheld
      refine ⟨directory, ?_, hdirectory⟩
      by_cases hkey : key.parent = Path.root
      · rw [hkey, live?_root] at hparent ⊢
        rw [hroot, hparent]
      · rw [live?_of_ne_root hkey] at hparent ⊢
        rw [hlive, if_neg]
        · exact hparent
        · rintro rfl
          have hunder := (h.rooted key.parent directory hparent).under_parent
          have member : (key, id) ∈ volume.below key.parent :=
            List.mem_filter.mpr ⟨Table.mem_live.mpr hheld, decide_eq_true hunder⟩
          rw [hempty directory hparent] at member
          cases member

end Enclosed

end Volume

namespace State

variable {state : State} {change : Change}

open Volume

/-- Every permitted change but a new link keeps a store enclosed. -/
theorem enclosed_commit (h : state.volume.Enclosed state.heap)
    (hpermitted : change.Permitted state.volume state.heap)
    (hplain : ∀ node record, change = .add node record → node.isLink = false) :
    (state.commit change).volume.Enclosed (state.commit change).heap := by
  obtain ⟨hsound, hkeeps⟩ := sound_commit h.toSound hpermitted
  have hroot := root_commit state change
  -- A new node is what the change says, but for the delay and the time of creation.
  have hnew : ∀ {node record}, change = .add node record →
      ((state.commit change).heap.get ⟨state.heap.size⟩).isLink = false := by
    rintro node record rfl
    rw [get_add, if_pos rfl]
    exact hplain node record rfl
  cases hpermitted with
  | keep => exact h
  | rewrite leads cut =>
      refine .of_table hsound ?_ ?_
      · intro path id hlive
        exact h.plain hkeeps hlive
      · intro path id hlive
        obtain ⟨directory, hheld, hdirectory⟩ := h.enclosed path id hlive
        refine ⟨directory, hheld, ?_⟩
        rw [hkeeps.isDirectory directory (h.made _ directory hheld), hdirectory]
  | file free held directory =>
      exact h.put hsound hkeeps hroot (fun _ => live?_add _) free ⟨_, held, directory⟩
        (hnew rfl)
  | directory parent free =>
      exact h.put hsound hkeeps hroot (fun _ => live?_add _) free (h.hasParent_iff.mp parent)
        (hnew rfl)
  | link leads free parent =>
      exact h.put hsound hkeeps hroot (fun _ => live?_add _) free (h.hasParent_iff.mp parent)
        (hnew rfl)
  | share leads plain free parent =>
      exact h.put hsound hkeeps hroot (fun _ => live?_share _) free (h.hasParent_iff.mp parent)
        leads.isLink
  | @move source target id apart held outside parent free =>
      have hclear := (Change.Permitted.move apart held outside parent free).fits
      have hfree := free ⟨id, source, target⟩ (mem_moves.mpr (Or.inl rfl))
      have hsource := held
      rw [live?_of_ne_root apart] at hsource
      exact h.move hsound hkeeps hroot (fun _ _ => live?_relocate_moves apart held hclear)
        hsource (h.rooted_of_hasParent hfree parent) outside (h.hasParent_iff.mp parent)
  | @remove path id apart leads empty =>
      rw [heap_remove] at hsound ⊢
      refine h.drop hsound hroot (fun key => ?_) fun held hheld => empty ?_
      · rw [volume_remove, Table.live?_erase]
      · -- The path has an entry, so its parent is a directory.
        obtain ⟨directory, hparent, hdirectory⟩ := h.enclosed path held hheld
        rw [h.leads_iff, hparent] at leads
        cases leads
        exact hdirectory

theorem enclosed_start (settings : Settings) :
    (State.start settings).volume.Enclosed (State.start settings).heap := by
  refine .of_table (sound_start settings) ?_ ?_
  · intro path id hlive
    cases hlive
  · intro path id hlive
    cases hlive

/-- A store is enclosed after every run without commands for symbolic links. -/
theorem enclosed_run (h : state.volume.Enclosed state.heap) {calls : List Call}
    (hcalls : ∀ call ∈ calls, ¬call.Commands .symlink) :
    (state.run calls).volume.Enclosed (state.run calls).heap := by
  refine run_makes_induction (motive := Enclosed) (fun _ _ hall => hall.toCalm) ?_ h hcalls
  intro between call reply change hall hsymlink hmakes hpermitted
  exact enclosed_commit hall hpermitted fun _ _ => hmakes.isLink_of_add hsymlink

end State

end FlatTree
