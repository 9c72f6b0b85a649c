import FlatTree.Proofs.Descent

/-!
Renames taken back. After a rename that is answered the keys that it carried are free, and a
rename back carries just the keys that they became, provided that no entry stood below the
target before while the source was a directory. So all checks of the rename back pass as soon
as the parent of the source leads to a directory again, and it takes every entry to the key
that it had.
-/

namespace FlatTree

/-- The rename from the target of a rename to its source. -/
structure Call.Reverses (back call : Call) : Prop where
  command : back.Commands .rename
  path : back.request.path = call.request.target
  target : back.request.target = call.request.path

namespace State

variable {state : State} {call back : Call} {reply : Reply} {key : Path} {id : NodeId}

section Served

variable (hcommand : call.Commands .rename) (hanswer : call.answer state = .ok reply)

include hcommand hanswer

/-- What stands under the target after a rename is what stood under the source. -/
theorem holdsDirectory_target_iff :
    (state.serve call).volume.HoldsDirectory (state.serve call).heap call.request.target ↔
      state.volume.HoldsDirectory state.heap call.request.path := by
  unfold Volume.HoldsDirectory
  rw [live?_target_of_rename hcommand hanswer]
  refine exists_congr fun id => and_congr_right fun _ => ?_
  have hkind : ((state.serve call).node id).isDirectory = (state.node id).isDirectory := by
    rw [node_of_rename hcommand hanswer]
  exact iff_of_eq (congrArg (· = true) hkind)

/-- The root's own key is not carried while the parent of the source leads anywhere after the
rename: it is below the empty path alone, which is its own parent and free by then. -/
theorem ne_root_of_carried
    (hparent : (state.serve call).volume.HasParent (state.serve call).heap call.request.path)
    (hcarried : key ∈ state.volume.carried state.heap call.request.path) :
    key ≠ Path.root := by
  rintro rfl
  obtain ⟨-, hrenames⟩ := (answer_rename_iff hcommand).mp hanswer
  rcases Volume.carries_iff.mp hcarried.2 with hroot | ⟨hunder, -⟩
  · exact hrenames.apart hroot.symm
  · have hnil := Path.eq_nil_of_root_under hunder
    obtain ⟨parent, hleads, -⟩ := hparent
    obtain ⟨held, hheld⟩ := hleads.occupied
    have hgone := live?_oldKey_of_rename hcommand hanswer hrenames.source_carried
    rw [hnil] at hheld hgone
    cases hgone.symm.trans hheld

variable (hempty : state.volume.HoldsDirectory state.heap call.request.path →
  state.volume.below call.request.target = [])

include hempty

/-- No entry stood below the target if a directory stands there after the rename. -/
theorem not_under_target (hlive : state.volume.table.live? key = some id)
    (hholds : (state.serve call).volume.HoldsDirectory (state.serve call).heap
      call.request.target) : ¬key.Under call.request.target := by
  intro hunder
  have member := Volume.mem_below.mpr ⟨hlive, hunder⟩
  rw [hempty ((holdsDirectory_target_iff hcommand hanswer).mp hholds)] at member
  cases member

/-- A rename back carries the new keys of the keys that were carried. -/
theorem carried_back : (state.serve call).volume.carried (state.serve call).heap
      call.request.target =
    (·.rebase call.request.path call.request.target) ''
      state.volume.carried state.heap call.request.path := by
  ext key
  constructor
  · rintro ⟨hlive, hcarries⟩
    obtain ⟨id, hlive⟩ := Option.isSome_iff_exists.mp hlive
    rcases (live?_of_rename hcommand hanswer).mp hlive with ⟨old, hold, rfl, -⟩ | ⟨-, hstood⟩
    · exact ⟨old, hold, rfl⟩
    · exfalso
      rcases Volume.carries_iff.mp hcarries with rfl | ⟨hunder, hholds⟩
      · obtain ⟨-, hrenames⟩ := (answer_rename_iff hcommand).mp hanswer
        cases (Volume.table_free hrenames.target_free).symm.trans hstood
      · exact not_under_target hcommand hanswer hempty hstood hholds hunder
  · rintro ⟨old, hold, rfl⟩
    obtain ⟨id, hlive⟩ := Option.isSome_iff_exists.mp hold.1
    refine Volume.carried_of_live? ?_ ((live?_newKey_iff hcommand hanswer hold).mpr hlive)
    rw [Volume.carries_iff, holdsDirectory_target_iff hcommand hanswer]
    rcases Volume.carries_iff.mp hold.2 with rfl | ⟨hunder, hholds⟩
    · exact Or.inl (Path.rebase_self _ _)
    · exact Or.inr ⟨Path.under_rebase hunder _, hholds⟩

/-- A rename back finds what it asks for, given that the parent of the source does so. -/
theorem renames_back (hparent : (state.serve call).volume.HasParent (state.serve call).heap
    call.request.path) :
    (state.serve call).Renames call.request.target call.request.path := by
  obtain ⟨-, hrenames⟩ := (answer_rename_iff hcommand).mp hanswer
  refine ⟨?_, Volume.ne_root_of_free hrenames.target_free, ?_, ?_, hparent, ?_⟩
  · rw [injected_serve, hrenames.injected]
  · rw [live?_target_of_rename hcommand hanswer]
    exact hrenames.held
  · intro hcarries
    rcases Volume.carries_iff.mp hcarries with hsame | ⟨hunder, hholds⟩
    · exact hrenames.outside (Or.inl hsame.symm)
    · obtain ⟨held, hheld⟩ := Option.isSome_iff_exists.mp hrenames.source_carried.1
      exact not_under_target hcommand hanswer hempty hheld hholds hunder
  · rw [carried_back hcommand hanswer hempty]
    rintro _ ⟨key, hcarried, rfl⟩
    simp only [Path.rebase_rebase hcarried.2.front]
    rw [Volume.live?_of_ne_root (ne_root_of_carried hcommand hanswer hparent hcarried)]
    exact live?_oldKey_of_rename hcommand hanswer hcarried

end Served

section Back

variable (hcommand : call.Commands .rename) (hanswer : call.answer state = .ok reply)
  (hback : back.Reverses call) (hagain : back.answer (state.serve call) = .ok .done)

include hcommand hanswer hback hagain

theorem node_of_undone : ((state.serve call).serve back).node id =
    { state.node id with path := (((state.serve call).serve back).node id).path } := by
  rw [node_of_rename hback.command hagain, node_of_rename hcommand hanswer]

/-- A rename that is undone is one of the kind that can be undone. -/
theorem conditions_of_undone
    (hsame : ((state.serve call).serve back).volume.table.live? = state.volume.table.live?) :
    (state.volume.HoldsDirectory state.heap call.request.path →
        state.volume.below call.request.target = []) ∧
      (state.serve call).volume.HasParent (state.serve call).heap call.request.path := by
  obtain ⟨-, hrenames⟩ := (answer_rename_iff hcommand).mp hanswer
  obtain ⟨-, hreturns⟩ := (answer_rename_iff hback.command).mp hagain
  rw [hback.path, hback.target] at hreturns
  refine ⟨fun hholds => ?_, hreturns.parent⟩
  have hmoved := (holdsDirectory_target_iff hcommand hanswer).mpr hholds
  rw [List.eq_nil_iff_forall_not_mem]
  rintro ⟨key, id⟩ member
  obtain ⟨hlive, hunder⟩ := Volume.mem_below.mp member
  -- An entry below the target is there in the end, so no rename has taken it along.
  have hstays : key ∉ (state.serve call).volume.carried (state.serve call).heap
      back.request.path := by
    intro hcarried
    have hgone := live?_oldKey_of_rename hback.command hagain hcarried
    rw [hsame, hlive] at hgone
    cases hgone
  by_cases hcarried : key ∈ state.volume.carried state.heap call.request.path
  · have hwithin : ¬call.request.path.Under call.request.target :=
      fun hinside => hreturns.outside (Volume.carries_iff.mpr (Or.inr ⟨hinside, hmoved⟩))
    rcases Volume.carries_iff.mp hcarried.2 with rfl | ⟨hfront, -⟩
    · exact hwithin hunder
    · rcases hfront.cases hunder with hequal | hinside | hinside
      · exact hrenames.outside (Or.inl hequal.symm)
      · exact hwithin hinside
      · exact hrenames.outside (Volume.carries_iff.mpr (Or.inr ⟨hinside, hholds⟩))
  · refine hstays (Volume.carried_of_live? ?_
      ((live?_of_rename hcommand hanswer).mpr (Or.inr ⟨hcarried, hlive⟩)))
    rw [hback.path]
    exact Volume.carries_iff.mpr (Or.inr ⟨hunder, hmoved⟩)

variable (hempty : state.volume.HoldsDirectory state.heap call.request.path →
  state.volume.below call.request.target = [])

include hempty

/-- A rename and the one back leave every key with its node. -/
theorem live?_of_undone : ((state.serve call).serve back).volume.table.live? key = some id ↔
    state.volume.table.live? key = some id := by
  obtain ⟨-, hrenames⟩ := (answer_rename_iff hcommand).mp hanswer
  rw [live?_of_rename hback.command hagain, hback.path, hback.target,
    carried_back hcommand hanswer hempty]
  constructor
  · rintro (⟨_, ⟨old, hold, rfl⟩, rfl, hlive⟩ | ⟨hstays, hlive⟩)
    · simp only [Path.rebase_rebase hold.2.front]
      exact (live?_newKey_iff hcommand hanswer hold).mp hlive
    · rcases (live?_of_rename hcommand hanswer).mp hlive with ⟨old, hold, rfl, -⟩ | ⟨-, hstood⟩
      · exact absurd ⟨old, hold, rfl⟩ hstays
      · exact hstood
  · intro hlive
    by_cases hcarried : key ∈ state.volume.carried state.heap call.request.path
    · exact Or.inl ⟨_, ⟨key, hcarried, rfl⟩, Path.rebase_rebase hcarried.2.front _,
        (live?_newKey_iff hcommand hanswer hcarried).mpr hlive⟩
    · refine Or.inr ⟨?_, (live?_of_rename hcommand hanswer).mpr (Or.inr ⟨hcarried, hlive⟩)⟩
      rintro ⟨old, hold, rfl⟩
      cases (Volume.table_free (hrenames.free old hold)).symm.trans hlive

/-- A node that was carried under one key alone ends with that key. -/
theorem path_of_undone (hcarried : key ∈ state.volume.carried state.heap call.request.path)
    (hlive : state.volume.table.live? key = some id)
    (honly : ∀ other, state.volume.table.live? other = some id → other = key) :
    (((state.serve call).serve back).node id).path = key := by
  have hmoved := (live?_newKey_iff hcommand hanswer hcarried).mpr hlive
  have hnew : key.rebase call.request.path call.request.target ∈
      (state.serve call).volume.carried (state.serve call).heap back.request.path := by
    rw [hback.path, carried_back hcommand hanswer hempty]
    exact ⟨key, hcarried, rfl⟩
  obtain ⟨last, hlast, hheld, hpath⟩ := path_of_carried hback.command hagain hnew hmoved
  rw [hback.path, carried_back hcommand hanswer hempty] at hlast
  obtain ⟨old, hold, rfl⟩ := hlast
  rw [hpath, hback.path, hback.target, Path.rebase_rebase hold.2.front]
  exact honly old ((live?_newKey_iff hcommand hanswer hold).mp hheld)

theorem path_of_undone_of_not_carried
    (hnone : ∀ key ∈ state.volume.carried state.heap call.request.path,
      state.volume.table.live? key ≠ some id) :
    (((state.serve call).serve back).node id).path = (state.node id).path := by
  rw [path_of_not_carried hback.command hagain, path_of_not_carried hcommand hanswer hnone]
  rw [hback.path, carried_back hcommand hanswer hempty]
  rintro _ ⟨old, hold, rfl⟩ hlive
  exact hnone old hold ((live?_newKey_iff hcommand hanswer hold).mp hlive)

end Back

/-- What it takes to undo a rename, from any state. The rename back is answered and leaves
every key with the node that it had before just when the source was no directory or no entry
stood below the target, and the parent of the source leads to a directory after the rename. A
node that was moved and has one key only ends with that key as its path, a node that was not
moved ends with the path that it had, and nothing else of any node changes. -/
theorem rename_undone_iff (state : State) (call back : Call) (reply : Reply) :
    let source := call.request.path
    let target := call.request.target
    let carried := state.volume.carried state.heap source
    let between := state.serve call
    let after := between.serve back
    let undone := back.answer between = .ok .done ∧
      after.volume.table.live? = state.volume.table.live?
    call.Commands .rename → call.answer state = .ok reply → back.Reverses call →
      (undone ↔
        (state.volume.HoldsDirectory state.heap source → state.volume.below target = []) ∧
          between.volume.HasParent between.heap source) ∧
      (undone →
        (∀ key ∈ carried, ∀ id, state.volume.table.live? key = some id →
          (∀ other, state.volume.table.live? other = some id → other = key) →
            (after.node id).path = key) ∧
        (∀ id, (∀ key ∈ carried, state.volume.table.live? key ≠ some id) →
          (after.node id).path = (state.node id).path) ∧
        ∀ id, after.node id = { state.node id with path := (after.node id).path }) := by
  intro source target carried between after undone hcommand hanswer hback
  have hconditions : undone →
      (state.volume.HoldsDirectory state.heap source → state.volume.below target = []) ∧
        between.volume.HasParent between.heap source :=
    fun hundone => conditions_of_undone hcommand hanswer hback hundone.1 hundone.2
  refine ⟨⟨hconditions, ?_⟩, ?_⟩
  · rintro ⟨hempty, hparent⟩
    have hagain : back.answer between = .ok .done := by
      rw [answer_rename_iff hback.command, hback.path, hback.target]
      exact ⟨rfl, renames_back hcommand hanswer hempty hparent⟩
    refine ⟨hagain, ?_⟩
    funext key
    exact Option.ext fun id => live?_of_undone hcommand hanswer hback hagain hempty
  · intro hundone
    obtain ⟨hempty, -⟩ := hconditions hundone
    exact ⟨fun key hcarried id =>
        path_of_undone hcommand hanswer hback hundone.1 hempty hcarried,
      fun id => path_of_undone_of_not_carried hcommand hanswer hback hundone.1 hempty,
      fun id => node_of_undone hcommand hanswer hback hundone.1⟩

def directoryRenamedBack : Call :=
  ⟨.command, { method := .rename, path := ['/', 'e'], target := ['/', 'd'] }⟩

/-- The directory has its key and its path again. The file in it, which has another key too,
has its keys again, but not the path that it had. -/
theorem directory_renamed_back :
    let after := (staleDestination.serve directoryRenamed).serve directoryRenamedBack
    directoryRenamed.answer staleDestination = .ok .done ∧
      directoryRenamedBack.answer (staleDestination.serve directoryRenamed) = .ok .done ∧
      after.volume.table.live? = staleDestination.volume.table.live? ∧
      after.node ⟨2⟩ = staleDestination.node ⟨2⟩ ∧
      (staleDestination.node ⟨1⟩).path = ['/', 'a'] ∧
      (after.node ⟨1⟩).path = ['/', 'd', '/', 'b'] := by
  intro after
  have hanswer : directoryRenamed.answer staleDestination = .ok .done := rfl
  obtain ⟨hundone, hnodes⟩ := rename_undone_iff staleDestination directoryRenamed
    directoryRenamedBack .done ⟨rfl, rfl⟩ hanswer ⟨⟨rfl, rfl⟩, rfl, rfl⟩
  have hparent : (staleDestination.serve directoryRenamed).volume.HasParent
      (staleDestination.serve directoryRenamed).heap ['/', 'd'] := by
    refine ⟨⟨0⟩, ?_, by decide +kernel⟩
    unfold Volume.Leads
    decide +kernel
  obtain ⟨hback, hlive⟩ := hundone.mpr ⟨fun _ => by decide +kernel, hparent⟩
  obtain ⟨hmoved, -, hrest⟩ := hnodes ⟨hback, hlive⟩
  have hpath : (after.node ⟨2⟩).path = ['/', 'd'] := by
    have honly : ∀ entry ∈ staleDestination.volume.table.live,
        entry.2 = ⟨2⟩ → entry.1 = ['/', 'd'] := by decide +kernel
    refine hmoved ['/', 'd'] ⟨by decide +kernel, .self⟩ ⟨2⟩ (by decide +kernel) ?_
    exact fun other hother => honly (other, ⟨2⟩) (Table.mem_live.mpr hother) rfl
  refine ⟨hanswer, hback, hlive, ?_, by decide +kernel, by decide +kernel⟩
  rw [hrest, hpath]
  decide +kernel

end State

end FlatTree
