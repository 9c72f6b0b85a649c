import FlatTree.Proofs.Descent

/-!
Entries taken out again right after they were made. A call that makes an entry looks at the
parent of the key, which is the key without its last segment and without the slashes before
that. A removal looks for keys that continue the key with a slash, and does not ask what
kind of node the key holds. In stores without symbolic links a key that holds no directory
is the parent of no entry, so what continues it stands in a directory before it: the key ends
in a slash, and the keys that continue it have one slash more (`Enclosed.last_of_below`).
Only such keys can be made and not be removed; all others leave the table as it was.
-/

namespace FlatTree

/-- A new path that is taken out again leaves no trace. -/
theorem Table.erase_insert {table : Table} {path : Path} (h : table.find? path = none)
    (value : Option NodeId) : (table.insert path value).erase path = table := by
  have hentries := entries_insert_of_find?_eq_none h value
  have hkept := congrArg Table.entries (erase_of_find?_eq_none h)
  obtain ⟨entries, nodup⟩ := table
  simp only [erase, Table.mk.injEq] at hentries hkept ⊢
  rw [hentries, List.filter_append, hkept]
  simp

namespace Volume

variable {volume : Volume} {heap : Heap} {path : Path}

/-- A path without a directory that has entries below it ends in a slash. -/
theorem Enclosed.last_of_below (h : volume.Enclosed heap) (hrooted : path.Rooted)
    (hnot : ¬volume.HoldsDirectory heap path) (hbelow : volume.below path ≠ []) :
    path.getLast? = some '/' := by
  by_contra hlast
  apply hbelow
  rw [h.below_eq_nil_iff hrooted hlast, List.eq_nil_iff_forall_not_mem]
  intro child member
  obtain ⟨⟨id, hlive⟩, hparent⟩ := mem_children.mp member
  have hholds := h.enclosed child id hlive
  rw [hparent] at hholds
  exact hnot hholds

end Volume

namespace State

variable {state : State} {call : Call} {key : Path} {id : NodeId} {reply : Reply}

open Volume

section Made

variable (h : state.volume.Sound state.heap) (hanswer : call.answer state = .ok reply)
  (hputs : call.Puts state key)

include h hanswer hputs

/-- Making an entry puts one key at the end of the table. -/
theorem table_of_puts : ∃ id,
    (state.serve call).volume.table = state.volume.table.insert key (some id) := by
  obtain ⟨change, hmakes, -, hvolume, -⟩ := served_of_answer_ok h.toCalm hanswer
  rcases change_of_puts hmakes hputs with ⟨-, -, node, record, rfl, rfl⟩ | ⟨-, id, rfl⟩
  · exact ⟨⟨state.heap.size⟩, congrArg Volume.table hvolume⟩
  · exact ⟨id, congrArg Volume.table hvolume⟩

/-- Making an entry changes no node. -/
theorem node_of_puts (hmade : id.index < state.heap.size) :
    (state.serve call).node id = state.node id := by
  obtain ⟨change, hmakes, -, -, hheap⟩ := served_of_answer_ok h.toCalm hanswer
  unfold node
  rw [hheap]
  rcases change_of_puts hmakes hputs with ⟨-, -, node, record, rfl, -⟩ | ⟨-, other, rfl⟩
  · exact get_add_of_made hmade
  · rfl

/-- A new entry is not below itself. -/
theorem below_of_puts : (state.serve call).volume.below key = state.volume.below key := by
  obtain ⟨hfree, -⟩ := served_puts h hanswer hputs
  obtain ⟨id, htable⟩ := table_of_puts h hanswer hputs
  have hself : ¬key.Under key := fun hunder => hunder.ne rfl
  unfold below
  rw [htable, h.tidy.live_insert (table_free hfree), List.filter_append]
  simp [hself]

theorem erase_of_puts : (state.serve call).volume.table.erase key = state.volume.table := by
  obtain ⟨hfree, -⟩ := served_puts h hanswer hputs
  obtain ⟨id, htable⟩ := table_of_puts h hanswer hputs
  have habsent : state.volume.table.find? key = none := by
    rw [h.tidy.find?_eq, table_free hfree]
    rfl
  rw [htable, Table.erase_insert habsent]

end Made

/-- Without links only entries below it keep an entry from being removed. -/
theorem answer_removal_of_entry (h : state.volume.Enclosed state.heap)
    (hlive : state.volume.table.live? key = some id) (hremove : call.Removes)
    (hpath : call.request.path = key) :
    call.answer state =
      if state.volume.below key = [] then .ok .done else .error (.fault (.notEmpty key)) := by
  subst hpath
  obtain ⟨above, hleads, hkind⟩ := h.hasParent_iff.mpr (h.enclosed _ id hlive)
  unfold Leads at hleads
  rw [answer_removes h.toCalm hremove (h.rooted _ id hlive).ne_root, hleads]
  by_cases hbelow : state.volume.below call.request.path = []
  · simp [hbelow]
  · simp [hbelow, hkind]

/-- What a removal makes of an entry that was just made, after every run without commands for
symbolic links. If no entry stands below the key, the removal is answered and leaves the
table, with its order, and the nodes as they were before the entry was made. Otherwise the
key ends in a slash, and the removal is refused and changes nothing. A regular file is refused
as not empty just when entries stand below its key, and then the key ends in a slash too. -/
theorem made_entry_removed_iff (settings : Settings) (calls : List Call)
    (hcalls : ∀ earlier ∈ calls, ¬earlier.Commands .symlink) :
    let before := (State.start settings).run calls
    (∀ (call removal : Call) (reply : Reply) (key : Path), ¬call.Commands .symlink →
        call.Puts before key → call.answer before = .ok reply →
        removal.Removes → removal.request.path = key →
          let between := before.serve call
          let after := between.serve removal
          (removal.answer between = .ok .done ↔ before.volume.below key = []) ∧
            (before.volume.below key = [] → after.volume.table = before.volume.table ∧
              ∀ id, id.index < before.heap.size → after.node id = before.node id) ∧
            (before.volume.below key ≠ [] → key.getLast? = some '/' ∧
              removal.answer between = .error (.fault (.notEmpty key)) ∧
              after.volume.table = between.volume.table)) ∧
      ∀ (removal : Call) (key : Path) (id : NodeId),
        before.volume.table.live? key = some id → (before.node id).isFile = true →
        removal.Removes → removal.request.path = key →
          (removal.answer before = .error (.fault (.notEmpty key)) ↔
            before.volume.below key ≠ []) ∧
          (before.volume.below key ≠ [] → key.getLast? = some '/') := by
  intro before
  have h : before.volume.Enclosed before.heap := enclosed_run (enclosed_start settings) hcalls
  constructor
  · intro call removal reply key hplain hputs hanswer hremove hpath between after
    have hbetween : between.volume.Enclosed between.heap := by
      have hone : ∀ later ∈ [call], ¬later.Commands .symlink := by simpa using hplain
      exact enclosed_run h hone
    obtain ⟨hfree, id, hlive, -⟩ := served_puts h.toSound hanswer hputs
    have hremoval := answer_removal_of_entry hbetween hlive hremove hpath
    rw [below_of_puts h.toSound hanswer hputs] at hremoval
    refine ⟨?_, fun hempty => ?_, fun hfull => ⟨?_, ?_, ?_⟩⟩
    · rw [hremoval]
      split <;> simp_all
    · rw [if_pos hempty] at hremoval
      constructor
      · rw [served_removes hbetween.toSound hremoval hremove, hpath,
          erase_of_puts h.toSound hanswer hputs]
      · intro other hmade
        have hsame : after.node other = between.node other := by
          unfold node
          rw [heap_of_removes hbetween.toCalm hremove hremoval]
        rw [hsame, node_of_puts h.toSound hanswer hputs hmade]
    · apply h.last_of_below (hbetween.rooted key id hlive) _ hfull
      rintro ⟨held, hheld, -⟩
      cases hfree.symm.trans hheld
    · rw [hremoval, if_neg hfull]
    · rw [if_neg hfull] at hremoval
      rw [(served_of_answer_error hbetween.toCalm hremoval).1]
  · intro removal key id hlive hfile hremove hpath
    have hrooted := h.rooted key id hlive
    refine ⟨?_, h.last_of_below hrooted ?_⟩
    · rw [answer_removal_of_entry h hlive hremove hpath]
      split <;> simp_all
    · rintro ⟨held, hheld, hkind⟩
      rw [live?_of_ne_root hrooted.ne_root, hlive] at hheld
      cases hheld
      unfold node Node.isFile at hfile
      simp [hkind] at hfile

/-- A directory right in another one, under a path that ends in a slash. -/
def slashedMade : Call := ⟨.command, { method := .mkdir, path := ['/', 'd', '/'] }⟩

/-- A file under the same path. -/
def slashedFileMade : Call := ⟨.write, { method := .put, path := ['/', 'd', '/'] }⟩

def slashedRemoved : Call := ⟨.command, { method := .remove, path := ['/', 'd', '/'] }⟩

/-- Beside an entry with two slashes in its key, a second name of a file is taken out again
and the table is as before. A directory whose path ends in a slash cannot be, nor a file. -/
theorem second_name_withdrawn :
    let before := (State.start {}).run [directoryMade, innerMade, fileMade]
    let unnamed : Call := ⟨.command, { method := .rmdir, path := ['/', 'd', '/', 'b'] }⟩
    let refused := .error (.fault (.notEmpty ['/', 'd', '/']))
    fileLinked.answer before = .ok .done ∧
      unnamed.answer (before.serve fileLinked) = .ok .done ∧
      ((before.serve fileLinked).serve unnamed).volume.table = before.volume.table ∧
      slashedRemoved.answer (before.serve slashedMade) = refused ∧
      slashedRemoved.answer ((State.start {}).run [directoryMade, innerMade, slashedFileMade]) =
        refused := by
  intro before unnamed refused
  obtain ⟨hmade, -⟩ := made_entry_removed_iff {} [directoryMade, innerMade, fileMade] (by decide)
  have hanswer : fileLinked.answer before = .ok .done := rfl
  obtain ⟨hanswered, hrestored, -⟩ := hmade fileLinked unnamed .done ['/', 'd', '/', 'b']
    (by decide) (.share ⟨rfl, rfl⟩) hanswer (Or.inr ⟨rfl, rfl⟩) rfl
  obtain ⟨-, -, hrefused⟩ := hmade slashedMade slashedRemoved .done ['/', 'd', '/'] (by decide)
    (.directory ⟨rfl, rfl⟩) rfl (Or.inl ⟨rfl, rfl⟩) rfl
  have hempty : before.volume.below ['/', 'd', '/', 'b'] = [] := by decide +kernel
  have hfull : before.volume.below ['/', 'd', '/'] ≠ [] := by decide +kernel
  obtain ⟨-, hfiles⟩ :=
    made_entry_removed_iff {} [directoryMade, innerMade, slashedFileMade] (by decide)
  obtain ⟨hfile, -⟩ := hfiles slashedRemoved ['/', 'd', '/'] ⟨3⟩ (by decide +kernel)
    (by decide +kernel) (Or.inl ⟨rfl, rfl⟩) rfl
  exact ⟨hanswer, hanswered.mpr hempty, (hrestored hempty).1, (hrefused hfull).2.1,
    hfile.mpr (by decide +kernel)⟩

/-- A directory and a regular file that are made under a path with a slash at its end. The
removal right after that takes an entry that stands beside them for one that they hold. -/
theorem slashed_entry_not_withdrawn :
    let before := (State.start {}).run [directoryMade, innerMade]
    let refused := .error (.fault (.notEmpty ['/', 'd', '/']))
    (∀ call ∈ [directoryMade, innerMade], ¬call.Commands .symlink) ∧
      slashedMade.Puts before ['/', 'd', '/'] ∧ slashedMade.answer before = .ok .done ∧
      slashedRemoved.answer (before.serve slashedMade) = refused ∧
      slashedFileMade.Puts before ['/', 'd', '/'] ∧
      slashedFileMade.answer before = .ok (.node ⟨3⟩) ∧
      ((before.serve slashedFileMade).node ⟨3⟩).isFile = true ∧
      slashedRemoved.answer (before.serve slashedFileMade) = refused := by
  intro before refused
  exact ⟨by decide, .directory ⟨rfl, rfl⟩, rfl, rfl, .file (Or.inl rfl) (by decide +kernel), rfl,
    by decide +kernel, rfl⟩

end State

end FlatTree
