import FlatTree.Proofs.Opening
import FlatTree.Proofs.Ownership

/-!
Directories and symbolic links have no content of their own. Opening gives out regular
files only, and a size can be set of nothing else, so in a course that works on opened
nodes all directories and links stay empty. A listing gives out nodes of every kind,
though, and writing to a node does not ask of what kind it is: what is written to a
directory or a link through a listing is all that it holds.
-/

namespace FlatTree

/-- How many bytes a content has at least after the edit. -/
def Edit.reach : Edit → Nat
  | .write offset data => offset + data.length
  | .resize size => size

def Edit.Writes : Edit → Prop
  | .write _ _ => True
  | .resize _ => False

/-- How far some edits reach. -/
def Edit.reachAll (edits : List Edit) : Nat :=
  edits.foldl (fun size edit => max size edit.reach) 0

/-- Writing never shortens a content, so the furthest edit decides the size. -/
theorem Bytes.length_replay {edits : List Edit} (h : ∀ edit ∈ edits, edit.Writes)
    (content : Bytes) : (content.replay edits).length =
      edits.foldl (fun size edit => max size edit.reach) content.length := by
  induction edits generalizing content with
  | nil => rfl
  | cons edit rest ih =>
      have hrest := ih (fun other member => h other (List.mem_cons_of_mem edit member))
        (edit.apply content)
      have hedit := h edit List.mem_cons_self
      cases edit with
      | write offset data =>
          rw [List.foldl_cons, Edit.reach, ← Bytes.length_write]
          exact hrest
      | resize size => exact hedit.elim

/-- The nodes that a reply opens for transfers. -/
def Reply.opened : Reply → List NodeId
  | .node id => [id]
  | .listing _ | .done => []

/-- The nodes that a call gives out. -/
def Call.given (gives : Reply → List NodeId) (call : Call) (state : State) : List NodeId :=
  match call.answer state with
  | .ok reply => gives reply
  | .error _ => []

/-- All work of the course is done on nodes that are held or that a reply gave before. -/
def State.WorksOn (gives : Reply → List NodeId) (held : List NodeId) (state : State) :
    List Step → Prop
  | [] => True
  | .call call :: rest =>
      (state.serve call).WorksOn gives (held ++ call.given gives state) rest
  | .work id work :: rest =>
      id ∈ held ∧ (state.take (.work id work)).WorksOn gives held rest

theorem Step.eq_resize_of_call {state : State} {id : NodeId} {call : Call} {edit : Edit}
    (h : (Step.call call).edit? state id = some edit) : ∃ size, edit = .resize size := by
  simp only [Step.edit?] at h
  split at h
  · obtain ⟨size, -, rfl⟩ := Option.map_eq_some_iff.mp h
    exact ⟨_, rfl⟩
  · cases h

namespace Node

variable {node other : Node}

theorem isLink_of_fixed (h : node.fixed = other.fixed) : node.isLink = other.isLink := by
  simp only [fixed, Prod.mk.injEq] at h
  unfold isLink
  rw [h.2.1]

theorem isFile_of_fixed (h : node.fixed = other.fixed) : node.isFile = other.isFile := by
  have hlink := isLink_of_fixed h
  simp only [fixed, Prod.mk.injEq] at h
  unfold isFile
  rw [h.1, hlink]

end Node

/-- A volume stays sound when nothing but contents and errors of nodes change. -/
theorem Volume.Sound.of_nodes {volume : Volume} {heap after : Heap} (h : volume.Sound heap)
    (hsize : heap.size ≤ after.size)
    (hnodes : ∀ id, (after.get id).fixed = (heap.get id).fixed ∧
      (after.get id).path = (heap.get id).path) : volume.Sound after where
  toCalm := h.toCalm
  rooted := h.rooted
  made path id hlive := Nat.lt_of_lt_of_le (h.made path id hlive) hsize
  root_isDirectory := by
    have hfixed := (hnodes volume.root).1
    simp only [Node.fixed, Prod.mk.injEq] at hfixed
    rw [hfixed.1]
    exact h.root_isDirectory
  root_path := by
    rw [(hnodes volume.root).2]
    exact h.root_path
  oneKind id hdirectory := by
    have hfixed := (hnodes id).1
    rw [Node.isLink_of_fixed hfixed]
    simp only [Node.fixed, Prod.mk.injEq] at hfixed
    rw [hfixed.1] at hdirectory
    exact h.oneKind id hdirectory
  ownPath path id hlive hfile := by
    rw [Node.isFile_of_fixed (hnodes id).1] at hfile
    rw [(hnodes id).2]
    exact h.ownPath path id hlive hfile

namespace State

variable {state : State} {id : NodeId} {call : Call} {step : Step} {held : List NodeId}

theorem sound_take (h : state.volume.Sound state.heap) (step : Step) :
    (state.take step).volume.Sound (state.take step).heap := by
  cases step with
  | call call => exact sound_serve h call
  | work held work =>
      rcases state.take_work_cases held work with
        ⟨_, -, hsame⟩ | ⟨node, -, hresult, hvolume, hsize, hnode⟩
      · rw [hsame]
        exact h
      · rw [hvolume]
        refine h.of_nodes hsize fun id => ?_
        have hchanged := hnode id
        unfold State.node at hchanged
        rw [hchanged]
        split
        · rename_i hid
          obtain ⟨-, hfixed, hpath⟩ := Work.result_eq_ok hresult
          rw [hid]
          exact ⟨hfixed, hpath⟩
        · exact ⟨rfl, rfl⟩

theorem isFile_follow (steps : List Step) (hmade : id.index < state.heap.size) :
    ((state.follow steps).node id).isFile = (state.node id).isFile :=
  Node.isFile_of_fixed (fixed_follow steps hmade).2

/-- A node that is cut is a regular file and stays one. -/
theorem isFile_of_cut {size : Int} {cut : Node} (h : (state.node id).truncate size = .ok cut) :
    id.index < (state.commit (.rewrite id cut)).heap.size ∧
      ((state.commit (.rewrite id cut)).node id).isFile = true := by
  obtain ⟨hfile, rfl⟩ := Node.truncate_eq_ok h
  unfold node
  rw [size_rewrite, get_rewrite, if_pos rfl]
  exact ⟨by omega, hfile⟩

theorem take_truncate {size : Int} (h : (Work.truncate size).answer id state = .ok ()) :
    ∃ cut, (state.node id).truncate size = .ok cut ∧
      state.take (.work id (.truncate size)) = state.commit (.rewrite id cut) := by
  unfold Work.answer Work.act at h
  unfold take Work.act node
  simp only [Transfer.truncate_run] at h ⊢
  cases hcut : (state.heap.get id).truncate size with
  | error fault =>
      rw [hcut] at h
      cases h
  | ok cut => exact ⟨cut, rfl, rfl⟩

/-- A node of which a step sets the size is a regular file. -/
theorem isFile_of_resize {size : Nat} (h : step.edit? state id = some (.resize size)) :
    id.index < (state.take step).heap.size ∧ ((state.take step).node id).isFile = true := by
  cases step with
  | call call =>
      simp only [Step.edit?] at h
      split at h
      · rename_i hset
        obtain ⟨hcommand, hok, hleads⟩ := hset
        obtain ⟨size, hsize, -⟩ := Option.map_eq_some_iff.mp h
        cases hanswer : call.answer state with
        | error refusal =>
            rw [hanswer] at hok
            cases hok
        | ok reply =>
            obtain ⟨found, hfound, hcut⟩ := agrees_of_setstat hcommand hanswer
            have hid := hleads.unique hfound
            subst hid
            rw [hsize] at hcut
            obtain ⟨cut, hcut, hagrees⟩ := hcut
            unfold node
            rw [take, hagrees.heap]
            exact isFile_of_cut hcut
      · cases h
  | work held work =>
      simp only [Step.edit?] at h
      split at h
      · rename_i hdone
        obtain ⟨rfl, hok⟩ := hdone
        cases work with
        | truncate size =>
            cases hanswer : (Work.truncate size).answer held state with
            | error refusal =>
                rw [hanswer] at hok
                cases hok
            | ok _ =>
                obtain ⟨cut, hcut, htake⟩ := take_truncate hanswer
                rw [htake]
                exact isFile_of_cut hcut
        | read | fill | write | report => cases h
      · cases h

/-- All edits of a node that ends as a directory or a link are writes. -/
theorem writes_of_not_isFile (state : State) (steps : List Step)
    (hfile : ((state.follow steps).node id).isFile = false) :
    ∀ edit ∈ state.edits id steps, edit.Writes := by
  induction steps generalizing state with
  | nil => simp [edits]
  | cons step rest ih =>
      intro edit member
      rw [edits, List.mem_append, Option.mem_toList] at member
      rcases member with hhere | hlater
      · cases edit with
        | write offset data => trivial
        | resize size =>
            obtain ⟨hmade, hresized⟩ := isFile_of_resize hhere
            rw [follow_cons, isFile_follow rest hmade, hresized] at hfile
            cases hfile
      · exact ih (state.take step) hfile edit hlater

/-- Only services that open a path reply with a node. -/
theorem opens_of_answer_node (h : call.answer state = .ok (.node id)) :
    call.service = .read ∨ call.Writes := by
  unfold Call.answer Call.run at h
  cases hservice : call.service <;>
    simp only [hservice, map_eq_pure_bind, Act.bind_run, Act.pure_run] at h
  case read => exact Or.inl rfl
  case write => exact Or.inr (Or.inl hservice)
  case openFile => exact Or.inr (Or.inr hservice)
  case list => cases hrun : Directory.list call.request state <;> simp [hrun] at h
  case lstat => cases hrun : Directory.lstat call.request state <;> simp [hrun] at h
  case command => cases hrun : Command.serve call.request state <;> simp [hrun] at h

/-- A node that is opened is a regular file. -/
theorem isFile_of_opened (hsound : state.volume.Sound state.heap)
    (h : call.answer state = .ok (.node id)) :
    id.index < (state.serve call).heap.size ∧
      ((state.serve call).node id).isFile = true := by
  have hopened : state.Opens call.request.path id →
      id.index < (state.serve call).heap.size ∧
        ((state.serve call).node id).isFile = true := by
    intro hopens
    obtain ⟨stop, hstop⟩ := hopens.leads.held
    obtain ⟨hmade, hfixed⟩ := fixed_take (.call call) (hsound.made stop id hstop)
    exact ⟨hmade, (Node.isFile_of_fixed hfixed).trans hopens.isFile⟩
  rcases opens_of_answer_node h with hread | hwrites
  · exact hopened (opens_of_read hread h)
  · rcases writes_cases hwrites h with
      ⟨_, hreply, hopens, -⟩ | ⟨hreply, hinjected, hfree, -, hagrees⟩
    · cases hreply
      exact hopened hopens
    · cases hreply
      refine ⟨?_, (opens_of_made (Volume.ne_root_of_free hfree) hinjected hagrees).isFile⟩
      rw [hagrees.heap, size_add]
      exact Nat.lt_succ_self _

theorem isFile_of_given (hsound : state.volume.Sound state.heap)
    (h : id ∈ call.given Reply.opened state) :
    id.index < (state.serve call).heap.size ∧
      ((state.serve call).node id).isFile = true := by
  unfold Call.given at h
  cases hanswer : call.answer state with
  | error refusal =>
      rw [hanswer] at h
      cases h
  | ok reply =>
      rw [hanswer] at h
      cases reply with
      | node opened =>
          rw [List.mem_singleton.mp h]
          exact isFile_of_opened hsound hanswer
      | listing found => cases h
      | done => cases h

/-- Work on opened nodes edits no directory and no link. -/
theorem edits_eq_nil (hsound : state.volume.Sound state.heap) {steps : List Step}
    (hheld : ∀ id ∈ held, id.index < state.heap.size ∧ (state.node id).isFile = true)
    (hworks : state.WorksOn Reply.opened held steps)
    (hfile : ((state.follow steps).node id).isFile = false) : state.edits id steps = [] := by
  induction steps generalizing state held with
  | nil => rfl
  | cons step rest ih =>
      have hwrites := writes_of_not_isFile state (step :: rest) hfile
      have hkept : ∀ id ∈ held, id.index < (state.take step).heap.size ∧
          ((state.take step).node id).isFile = true := by
        intro other member
        obtain ⟨hmade, hother⟩ := hheld other member
        obtain ⟨hsize, hfixed⟩ := fixed_take step hmade
        exact ⟨hsize, (Node.isFile_of_fixed hfixed).trans hother⟩
      rw [edits] at hwrites ⊢
      cases step with
      | call call =>
          have hrest : (state.take (.call call)).edits id rest = [] := by
            refine ih (sound_take hsound (.call call)) ?_ hworks hfile
            intro other member
            rcases List.mem_append.mp member with hold | hnew
            · exact hkept other hold
            · exact isFile_of_given hsound hnew
          -- A call edits a node by setting its size, which it can do to files only.
          cases hedit : (Step.call call).edit? state id with
          | none => rw [hrest]; rfl
          | some edit =>
              obtain ⟨size, rfl⟩ := Step.eq_resize_of_call hedit
              exact (hwrites (.resize size) (by rw [hedit]; exact List.mem_cons_self)).elim
      | work worked work =>
          obtain ⟨hmember, hworks⟩ := hworks
          have hother : worked ≠ id := by
            rintro rfl
            obtain ⟨hmade, hopened⟩ := hheld worked hmember
            rw [isFile_follow _ hmade, hopened] at hfile
            cases hfile
          rw [ih (sound_take hsound _) hkept hworks hfile, List.append_nil, Step.edit?,
            if_neg fun h => hother h.1]
          rfl

/-- A directory or a link holds what was written to it and nothing else. After every
course of calls and work from an empty store, its size is how far the writes reach that
were done on the node itself, so it is empty unless one of them reaches beyond the start;
and in a course that works on opened nodes only, it is empty. -/
theorem hollow_unless_written (settings : Settings) (steps : List Step) (id : NodeId)
    (hfile : (((State.start settings).follow steps).node id).isFile = false) :
    let start := State.start settings
    let after := start.follow steps
    (∀ edit ∈ start.edits id steps, edit.Writes) ∧
      (after.node id).size = Edit.reachAll (start.edits id steps) ∧
      (start.WorksOn Reply.opened [] steps → (after.node id).size = 0) := by
  intro start after
  have hwrites := writes_of_not_isFile start steps hfile
  have hempty : (start.node id).content = [] := content_start settings id
  have hsize : (after.node id).size = Edit.reachAll (start.edits id steps) := by
    unfold Node.size
    rw [content_follow start steps id, Bytes.length_replay hwrites, hempty]
    rfl
  refine ⟨hwrites, hsize, fun hworks => ?_⟩
  rw [hsize, edits_eq_nil (sound_start settings) (by simp) hworks hfile]
  rfl

/-- A directory and a link in it are made and looked at, the link without following it,
and so is the root. -/
def entriesShown : List Step :=
  [.call directoryMade, .call linkMade,
    .call ⟨.list, { method := .list, path := Path.root }⟩,
    .call ⟨.lstat, { method := .stat, path := ['/', 'd', '/', 's'] }⟩,
    .call ⟨.list, { method := .stat, path := Path.root }⟩]

/-- All that was shown is written to. -/
def shownWritten : List Step :=
  [.work ⟨1⟩ (.write [104, 105] 0), .work ⟨2⟩ (.write [33] 2), .work ⟨0⟩ (.write [7] 0)]

/-- Nodes that replies gave take what is written to them, be it a directory, a link or
the root, while cutting them is refused. -/
theorem written_through_listing :
    let start := State.start {}
    let steps := entriesShown ++ shownWritten
    let after := start.follow steps
    start.WorksOn Reply.gained [] steps ∧
      (after.node ⟨1⟩).isDirectory = true ∧ (after.node ⟨1⟩).size = 2 ∧
      (after.node ⟨2⟩).isLink = true ∧ (after.node ⟨2⟩).size = 3 ∧
      (after.node after.volume.root).isDirectory = true ∧
      (after.node after.volume.root).size = 1 ∧
      (Work.truncate 0).answer ⟨1⟩ after =
        .error (.fault (.directoryTruncated ['/', 'd'])) := by
  intro start steps after
  have hworks : start.WorksOn Reply.gained [] steps := by
    change _ ∧ _ ∧ _ ∧ True
    exact ⟨by decide +kernel, by decide +kernel, by decide +kernel, trivial⟩
  exact ⟨hworks, by decide +kernel, by decide +kernel, by decide +kernel, by decide +kernel,
    by decide +kernel, by decide +kernel, by decide +kernel⟩

/-- A directory, its link and a file in it, of which the file is written to. -/
def fileWritten : List Step :=
  [.call directoryMade, .call linkMade,
    .call ⟨.write, { method := .put, path := ['/', 'd', '/', 'f'] }⟩,
    .work ⟨3⟩ (.write [104, 105] 0)]

/-- What is written through a listing is all that a directory holds, and what is written
to a file that was opened does not show in the directory or the link. -/
theorem directory_holds_what_was_written :
    let start := State.start {}
    ((start.follow (entriesShown ++ shownWritten)).node ⟨1⟩).isFile = false ∧
      ((start.follow (entriesShown ++ shownWritten)).node ⟨1⟩).size =
        Edit.reachAll [.write 0 [104, 105]] ∧
      start.WorksOn Reply.opened [] fileWritten ∧
      ((start.follow fileWritten).node ⟨1⟩).isFile = false ∧
      ((start.follow fileWritten).node ⟨1⟩).size = 0 ∧
      ((start.follow fileWritten).node ⟨2⟩).isFile = false ∧
      ((start.follow fileWritten).node ⟨2⟩).size = 0 := by
  intro start
  have hshown : ((start.follow (entriesShown ++ shownWritten)).node ⟨1⟩).isFile = false := by
    decide +kernel
  have hedits : start.edits ⟨1⟩ (entriesShown ++ shownWritten) = [.write 0 [104, 105]] := by
    decide +kernel
  obtain ⟨-, hsize, -⟩ := hollow_unless_written {} (entriesShown ++ shownWritten) ⟨1⟩ hshown
  have hworks : start.WorksOn Reply.opened [] fileWritten := by
    change _ ∧ True
    exact ⟨by decide +kernel, trivial⟩
  have hdirectory : ((start.follow fileWritten).node ⟨1⟩).isFile = false := by decide +kernel
  have hlink : ((start.follow fileWritten).node ⟨2⟩).isFile = false := by decide +kernel
  refine ⟨hshown, ?_, hworks, hdirectory, ?_, hlink, ?_⟩
  · rw [← hedits]
    exact hsize
  · exact (hollow_unless_written {} fileWritten ⟨1⟩ hdirectory).2.2 hworks
  · exact (hollow_unless_written {} fileWritten ⟨2⟩ hlink).2.2 hworks

end State

end FlatTree
