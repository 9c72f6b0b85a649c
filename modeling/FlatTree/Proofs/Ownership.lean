import FlatTree.Proofs.Course
import FlatTree.Proofs.Succession

/-!
Content belongs to the node. Over a course of calls and work, the content of a node is
what its own edits make of it, replayed in order: the writes and cuts that were done on
the node itself, and the sizes that were set on a path that led to it then. Entries come
and go, are moved and shared, and none of that shows in a content. Kind, link target and
time of creation are fixed, and a node gets another path only when a rename takes along
an entry that holds it.
-/

namespace FlatTree

/-- A change of a content. -/
inductive Edit where
  | write (offset : Nat) (data : Bytes)
  | resize (size : Nat)
  deriving DecidableEq

def Edit.apply (content : Bytes) : Edit → Bytes
  | .write offset data => content.write offset data
  | .resize size => content.resize size

/-- The content after some edits, first to last. -/
def Bytes.replay (content : Bytes) (edits : List Edit) : Bytes :=
  edits.foldl Edit.apply content

theorem Bytes.replay_append (content : Bytes) (first second : List Edit) :
    content.replay (first ++ second) = (content.replay first).replay second :=
  List.foldl_append ..

/-- The size that the attributes set, if they set one. -/
def Attributes.newSize? (attributes : Attributes) : Option Int :=
  match attributes.size with
  | some (.whole size) => if attributes.hasSize then some size else none
  | _ => none

/-- The edit that work is when it is done. -/
def Work.edit? : Work → Option Edit
  | .write data offset => some (.write offset.toNat data)
  | .truncate size => some (.resize size.toNat)
  | .read _ _ | .fill _ _ | .report _ => none

/-- The edit that a step is for a node: writing to the node or cutting it, or setting
the size of a path that leads to it. A step that is refused is no edit. -/
def Step.edit? (state : State) (id : NodeId) : Step → Option Edit
  | .call asked =>
      if asked.Commands .setstat ∧ (asked.answer state).isOk = true ∧
          state.volume.Leads state.heap asked.request.path id then
        asked.request.attributes.newSize?.map fun size => .resize size.toNat
      else none
  | .work other done =>
      if other = id ∧ (done.answer other state).isOk = true then done.edit? else none

/-- The edits of a node over a course of steps, first to last. -/
def State.edits (id : NodeId) (state : State) : List Step → List Edit
  | [] => []
  | step :: rest => (step.edit? state id).toList ++ (state.take step).edits id rest

namespace Work

variable {work : Work} {node after : Node}

/-- Work edits the content of the node and nothing else that counts. -/
theorem result_eq_ok (h : work.result node = .ok after) :
    after.content = node.content.replay work.edit?.toList ∧ after.fixed = node.fixed ∧
      after.path = node.path := by
  cases work with
  | read size offset =>
      simp only [result] at h
      cases hread : node.readAt size offset <;> rw [hread] at h <;> cases h
      exact ⟨rfl, rfl, rfl⟩
  | fill buffer offset =>
      simp only [result] at h
      cases hread : node.readInto buffer offset <;> rw [hread] at h <;> cases h
      exact ⟨rfl, rfl, rfl⟩
  | write data offset =>
      rw [Node.writeAt_eq_ok h]
      exact ⟨rfl, rfl, rfl⟩
  | truncate size =>
      obtain ⟨-, rfl⟩ := Node.truncate_eq_ok h
      exact ⟨rfl, rfl, rfl⟩
  | report failure =>
      cases h
      exact ⟨rfl, rfl, rfl⟩

end Work

/-- Attributes set no size, or the size of the node that the path leads to. -/
theorem Plan.setstat_cases {request : Request} {volume : Volume} {heap : Heap}
    {change : Change} (h : ((Plan.setstat request) volume heap).outcome = .ok change) :
    ∃ id, volume.Leads heap request.path id ∧ match request.attributes.newSize? with
      | none => change = .keep
      | some size => ∃ cut,
          (heap.get id).truncate size = .ok cut ∧ change = .rewrite id cut := by
  simp only [setstat, Query.outcome_bind_eq_ok, outcome_resolve_eq_ok] at h
  obtain ⟨id, hleads, hrest⟩ := h
  refine ⟨id, hleads, ?_⟩
  unfold Attributes.newSize?
  split at hrest
  · rename_i hflag
    rcases hsize : request.attributes.size with _ | (size | _)
    · simp only [hsize] at hrest
      cases hrest
    · simp only [hsize, Query.outcome_bind_eq_ok, outcome_node_eq_ok] at hrest
      obtain ⟨node, rfl, cut, hcut, hpure⟩ := hrest
      cases hpure
      simp only [hflag, if_true]
      exact ⟨cut, hcut, rfl⟩
    · simp only [hsize] at hrest
      cases hrest
  · rename_i hflag
    cases hrest
    rcases request.attributes.size with _ | (size | _) <;> simp [hflag]

/-- A command has nothing to reply. -/
theorem Call.planned_of_command {call : Call} {volume : Volume} {heap : Heap} {reply : Reply}
    {change : Change} (hservice : call.service = .command)
    (h : (call.plan volume heap).outcome = .ok (reply, change)) :
    reply = .done ∧ ((Plan.perform call.request) volume heap).outcome = .ok change := by
  unfold Call.plan at h
  rw [hservice] at h
  obtain ⟨planned, hplanned, hpure⟩ := Query.outcome_bind_eq_ok.mp h
  cases hpure
  exact ⟨rfl, hplanned⟩

namespace State

variable {state : State} {change : Change} {volume : Volume} {id : NodeId} {call : Call}
  {reply : Reply}

/-- Attributes that are set on a path cut the node that the path leads to, or change
nothing if they set no size. -/
theorem agrees_of_setstat (hcommand : call.Commands .setstat)
    (hanswer : call.answer state = .ok reply) :
    ∃ id, state.volume.Leads state.heap call.request.path id ∧
      match call.request.attributes.newSize? with
      | none => (state.serve call).Agrees state
      | some size => ∃ cut, (state.node id).truncate size = .ok cut ∧
          (state.serve call).Agrees (state.commit (.rewrite id cut)) := by
  obtain ⟨change, -, hplan, hagrees⟩ := agrees_of_answer_ok hanswer
  have hperform := (Call.planned_of_command hcommand.1 hplan).2
  unfold Plan.perform at hperform
  rw [hcommand.2] at hperform
  obtain ⟨id, hleads, hchange⟩ := Plan.setstat_cases hperform
  refine ⟨id, Volume.leads_tidy.mp hleads, ?_⟩
  cases hsize : call.request.attributes.newSize? with
  | none =>
      rw [hsize] at hchange
      simp only at hchange
      rw [hchange] at hagrees
      exact hagrees
  | some size =>
      rw [hsize] at hchange
      obtain ⟨cut, hcut, rfl⟩ := hchange
      exact ⟨cut, hcut, hagrees⟩

/-- A change that is no new value for a node changes no content. A new node is empty,
and blank as long as it was not made. -/
theorem content_commit (h : change.Permitted volume state.heap)
    (hrewrite : ∀ other node, change ≠ .rewrite other node) (id : NodeId) :
    ((state.commit change).node id).content = (state.node id).content := by
  have hblank : state.node ⟨state.heap.size⟩ = default := node_unmade (Nat.le_refl _)
  have hnew : ∀ node : Node, node.content = [] →
      (if id = ⟨state.heap.size⟩ then
        { node with delay := state.volume.settings.writeDelay, createdAt := state.heap.size }
        else state.node id).content = (state.node id).content := by
    intro node hempty
    split
    · rename_i hid
      rw [hid, hblank]
      exact hempty
    · rfl
  rw [node_commit]
  cases h with
  | keep => rfl
  | rewrite leads cut => exact absurd rfl (hrewrite _ _)
  | file free held directory => exact hnew _ rfl
  | directory parent free => exact hnew _ rfl
  | link leads free parent => exact hnew _ rfl
  | share leads plain free parent => rfl
  | move apart held outside parent free => rfl
  | remove apart leads empty => rfl

/-- What is fixed about a node stays when a change is made. -/
theorem fixed_commit (h : change.Permitted volume state.heap) (hmade : id.index < state.heap.size) :
    ((state.commit change).node id).fixed = (state.node id).fixed := by
  rw [node_commit_of_made change hmade]
  cases h with
  | rewrite leads cut =>
      simp only
      split
      · rename_i hid
        obtain ⟨-, rfl⟩ := Node.truncate_eq_ok cut
        rw [hid]
        rfl
      · rfl
  | keep | file | directory | link | share | move | remove => rfl

/-- A call edits the content of a node when it sets the size of a path that leads to
the node, and else leaves it as it is. -/
theorem content_serve (state : State) (call : Call) (id : NodeId) :
    ((state.serve call).node id).content =
      (state.node id).content.replay ((Step.call call).edit? state id).toList := by
  simp only [Step.edit?]
  cases hanswer : call.answer state with
  | error refusal =>
      rw [if_neg fun h => Bool.noConfusion h.2.1, node_of_answer_error hanswer]
      rfl
  | ok reply =>
      by_cases hcommand : call.Commands .setstat
      · obtain ⟨found, hfound, hset⟩ := agrees_of_setstat hcommand hanswer
        unfold node
        cases hsize : call.request.attributes.newSize? with
        | none =>
            rw [hsize] at hset
            rw [hset.heap]
            split <;> rfl
        | some size =>
            rw [hsize] at hset
            obtain ⟨cut, hcut, hagrees⟩ := hset
            rw [hagrees.heap, get_rewrite]
            by_cases hid : id = found
            · obtain ⟨-, rfl⟩ := Node.truncate_eq_ok hcut
              rw [if_pos hid, hid, if_pos ⟨hcommand, rfl, hfound⟩]
              rfl
            · rw [if_neg hid, if_neg fun h => hid (h.2.2.unique hfound)]
              rfl
      · obtain ⟨change, hmakes, hpermitted, -, hnode⟩ := node_of_answer_ok hanswer
        rw [if_neg fun h => hcommand h.1, hnode]
        refine content_commit hpermitted (fun other node hrewrite => ?_) id
        exact hcommand (hmakes.commands_setstat hrewrite)

/-- A step edits the content of a node as its edit says, and without one not at all. -/
theorem content_take (state : State) (step : Step) (id : NodeId) :
    ((state.take step).node id).content =
      (state.node id).content.replay (step.edit? state id).toList := by
  cases step with
  | call call => exact content_serve state call id
  | work held work =>
      simp only [Step.edit?]
      rcases state.take_work_cases held work with
        ⟨refusal, hanswer, hsame⟩ | ⟨node, hanswer, hresult, -, -, hnode⟩
      · rw [hsame, hanswer, if_neg fun h => Bool.noConfusion h.2]
        rfl
      · rw [hnode, hanswer]
        by_cases hid : id = held
        · rw [if_pos hid, if_pos ⟨hid.symm, rfl⟩, hid]
          exact (Work.result_eq_ok hresult).1
        · rw [if_neg hid, if_neg fun h => hid h.1.symm]
          rfl

/-- Over a course of steps the content of a node is what its edits make of it. -/
theorem content_follow (state : State) (steps : List Step) (id : NodeId) :
    ((state.follow steps).node id).content =
      (state.node id).content.replay (state.edits id steps) := by
  induction steps generalizing state with
  | nil => rfl
  | cons step rest ih =>
      rw [follow_cons, ih, content_take, edits, Bytes.replay_append]

/-- In an empty store no node has content. -/
theorem content_start (settings : Settings) (id : NodeId) :
    ((State.start settings).node id).content = [] := by
  rcases id with ⟨_ | index⟩
  · rfl
  · rw [node_unmade (by simp [start, Heap.size, Heap.create])]
    rfl

/-- A node that is made stays made, and what is fixed about it stays. -/
theorem fixed_take (step : Step) (hmade : id.index < state.heap.size) :
    id.index < (state.take step).heap.size ∧
      ((state.take step).node id).fixed = (state.node id).fixed := by
  cases step with
  | call call =>
      cases hanswer : call.answer state with
      | error refusal =>
          rw [take, node_of_answer_error hanswer, (agrees_of_answer_error hanswer).heap]
          exact ⟨hmade, rfl⟩
      | ok reply =>
          obtain ⟨change, -, hpermitted, hsize, hnode⟩ := node_of_answer_ok hanswer
          rw [take, hnode]
          exact ⟨Nat.lt_of_lt_of_le hmade hsize, fixed_commit hpermitted hmade⟩
  | work held work =>
      rcases state.take_work_cases held work with
        ⟨refusal, -, hsame⟩ | ⟨node, -, hresult, -, hsize, hnode⟩
      · rw [hsame]
        exact ⟨hmade, rfl⟩
      · refine ⟨Nat.lt_of_lt_of_le hmade hsize, ?_⟩
        rw [hnode]
        split
        · rename_i hid
          rw [(Work.result_eq_ok hresult).2.1, hid]
        · rfl

theorem fixed_follow (steps : List Step) (hmade : id.index < state.heap.size) :
    id.index < (state.follow steps).heap.size ∧
      ((state.follow steps).node id).fixed = (state.node id).fixed := by
  refine follow_induction (motive := fun after =>
    id.index < after.heap.size ∧ (after.node id).fixed = (state.node id).fixed)
    state steps ⟨hmade, rfl⟩ ?_
  intro after step ⟨hafter, hfixed⟩
  obtain ⟨hsize, hsame⟩ := fixed_take step hafter
  exact ⟨hsize, hsame.trans hfixed⟩

/-- A change gives a node that was made another path only when it moves an entry that
holds the node. -/
theorem path_commit (h : change.Permitted state.volume.tidy state.heap)
    (hmade : id.index < state.heap.size)
    (hpath : ((state.commit change).node id).path ≠ (state.node id).path) :
    ∃ source target moves key, change = .move source target moves ∧
      state.volume.Carries state.heap source key ∧ state.volume.table.live? key = some id ∧
      ((state.commit change).node id).path = key.rebase source target := by
  rw [node_commit_of_made change hmade] at hpath ⊢
  cases h with
  | rewrite leads cut =>
      obtain ⟨-, rfl⟩ := Node.truncate_eq_ok cut
      simp only at hpath
      split at hpath
      · rename_i hid
        rw [hid] at hpath
        exact absurd rfl hpath
      · exact absurd rfl hpath
  | move apart held outside parent free =>
      rename_i source target holder
      rw [Volume.live?_tidy] at held
      simp only [Volume.moves_tidy] at hpath ⊢
      rcases Heap.pathAfter_cases
          (state.volume.moves holder (state.heap.get holder).isDirectory source target) id
          (state.node id).path with ⟨move, member, rfl, hmoved⟩ | ⟨-, hsame⟩
      · refine ⟨source, target, _, move.source, rfl, Volume.carries_of_mem_moves held member,
          ?_, ?_⟩
        · rcases Volume.mem_moves.mp member with rfl | ⟨-, -, hlive, -⟩
          · rwa [Volume.live?_of_ne_root apart] at held
          · exact hlive
        · rw [hmoved]
          rcases Volume.mem_moves.mp member with rfl | ⟨-, -, -, htarget⟩
          · exact (Path.rebase_self source target).symm
          · exact htarget
      · exact absurd hsame hpath
  | keep | file | directory | link | share | remove => exact absurd rfl hpath

/-- A step gives a node that was made another path only as a rename that takes along an
entry that holds the node. -/
theorem path_take (step : Step) (hmade : id.index < state.heap.size)
    (hpath : ((state.take step).node id).path ≠ (state.node id).path) :
    ∃ call key, step = .call call ∧ call.Commands .rename ∧
      call.answer state = .ok .done ∧
      state.volume.Carries state.heap call.request.path key ∧
      state.volume.table.live? key = some id ∧
      ((state.take step).node id).path =
        key.rebase call.request.path call.request.target := by
  cases step with
  | call call =>
      cases hanswer : call.answer state with
      | error refusal =>
          rw [take, node_of_answer_error hanswer] at hpath
          exact absurd rfl hpath
      | ok reply =>
          obtain ⟨change, hmakes, hpermitted, -, hnode⟩ := node_of_answer_ok hanswer
          rw [take, hnode] at hpath ⊢
          obtain ⟨source, target, moves, key, hchange, hcarries, hlive, hnew⟩ :=
            path_commit hpermitted hmade hpath
          have hcommand := hmakes.commands_rename hchange
          obtain ⟨moved, hrename⟩ := hmakes.of_rename hcommand
          rw [hrename] at hchange
          cases hchange
          refine ⟨call, key, rfl, hcommand, ?_, hcarries, hlive, hnew⟩
          obtain ⟨_, -, hplan, -⟩ := agrees_of_answer_ok hanswer
          rw [hanswer, (Call.planned_of_command hcommand.1 hplan).1]
  | work held work =>
      rcases state.take_work_cases held work with
        ⟨refusal, -, hsame⟩ | ⟨node, -, hresult, -, -, hnode⟩
      · rw [hsame] at hpath
        exact absurd rfl hpath
      · rw [hnode] at hpath
        split at hpath
        · rename_i hid
          rw [(Work.result_eq_ok hresult).2.2, hid] at hpath
          exact absurd rfl hpath
        · exact absurd rfl hpath

/-- Content belongs to the node. Over every course of calls and work, from any state, the
content of a node is what its own edits make of it, in order, from nothing if the node is
made on the way; a step that is no edit of the node leaves its content as it is, whatever
becomes of the entries. The kind of a node, its link target and its time of creation stay,
and its path changes only by a rename that takes along an entry that holds it. -/
theorem content_belongs_to_node (state : State) (steps : List Step) (id : NodeId) :
    ((state.follow steps).node id).content =
        (state.node id).content.replay (state.edits id steps) ∧
      (∀ settings, ((State.start settings).node id).content = []) ∧
      (state.heap.size ≤ id.index → (state.node id).content = []) ∧
      (id.index < state.heap.size →
        ((state.follow steps).node id).isDirectory = (state.node id).isDirectory ∧
          ((state.follow steps).node id).target = (state.node id).target ∧
          ((state.follow steps).node id).createdAt = (state.node id).createdAt) ∧
      ∀ earlier step later, steps = earlier ++ step :: later →
        let before := state.follow earlier
        let after := before.take step
        (step.edit? before id = none →
          (after.node id).content = (before.node id).content) ∧
        (id.index < before.heap.size → (after.node id).path ≠ (before.node id).path →
          ∃ call key, step = .call call ∧ call.Commands .rename ∧
            call.answer before = .ok .done ∧
            before.volume.Carries before.heap call.request.path key ∧
            before.volume.table.live? key = some id ∧
            (after.node id).path = key.rebase call.request.path call.request.target) := by
  refine ⟨content_follow state steps id, ?_, ?_, ?_, ?_⟩
  · exact fun settings => content_start settings id
  · intro hunmade
    rw [node_unmade hunmade]
    rfl
  · intro hmade
    have hfixed := (fixed_follow steps hmade).2
    simp only [Node.fixed, Prod.mk.injEq] at hfixed
    exact ⟨hfixed.1, hfixed.2.1, hfixed.2.2.2⟩
  · intro earlier step later _ before after
    refine ⟨fun hedit => ?_, fun hmade => path_take step hmade⟩
    have hcontent := content_take before step id
    rw [hedit] at hcontent
    exact hcontent

/-- A file in a directory is written and gets a second name. -/
def sharedFile : List Step :=
  [.call directoryMade,
    .call ⟨.write, { method := .put, path := ['/', 'd', '/', 'f'] }⟩,
    .work ⟨2⟩ (.write [104, 105] 0),
    .call ⟨.command, { method := .link, path := ['/', 'd', '/', 'f'], target := ['/', 'g'] }⟩]

/-- The names of the file go one by one, another file takes the place of the first, and
the node is cut short and written to past its end. -/
def namesLost : List Step :=
  [.call ⟨.command, { method := .remove, path := ['/', 'e', '/', 'f'] }⟩,
    .call ⟨.write, { method := .put, path := ['/', 'e', '/', 'f'] }⟩,
    .call ⟨.command,
      { method := .setstat, path := ['/', 'g'],
        attributes := { flags := 1, size := some (.whole 1) } }⟩,
    .call ⟨.command, { method := .remove, path := ['/', 'g'] }⟩,
    .work ⟨2⟩ (.write [33] 3),
    .work ⟨2⟩ (.truncate (-1)),
    .work ⟨3⟩ (.write [7] 0)]

/-- The node that was lost from the table has the content that its own edits made, and
the file at its old path has another. It got that path when its directory was renamed. -/
theorem content_of_lost_node :
    let start := State.start {}
    let steps := sharedFile ++ .call directoryRenamed :: namesLost
    let moved := (start.follow sharedFile).take (.call directoryRenamed)
    let after := start.follow steps
    start.heap.size ≤ 2 ∧
      start.edits ⟨2⟩ steps = [.write 0 [104, 105], .resize 1, .write 3 [33]] ∧
      (after.node ⟨2⟩).content = [104, 0, 0, 33] ∧ (after.node ⟨3⟩).content = [7] ∧
      (after.volume.table.live.map Prod.snd).contains ⟨2⟩ = false ∧
      ((moved.follow namesLost).node ⟨2⟩).isDirectory = (moved.node ⟨2⟩).isDirectory ∧
      ∃ key : Path, (start.follow sharedFile).volume.table.live? key = some ⟨2⟩ ∧
        (moved.node ⟨2⟩).path = key.rebase ['/', 'd'] ['/', 'e'] := by
  intro start steps moved after
  obtain ⟨hcontent, -, hempty, -, hsteps⟩ := content_belongs_to_node start steps ⟨2⟩
  have hedits : start.edits ⟨2⟩ steps =
      [.write 0 [104, 105], .resize 1, .write 3 [33]] := by decide +kernel
  have hotherEdits : start.edits ⟨3⟩ steps = [.write 0 [7]] := by decide +kernel
  have hother := (content_belongs_to_node start steps ⟨3⟩).1
  have hblank : (start.node ⟨3⟩).content = [] := by decide +kernel
  have hkind := (content_belongs_to_node moved namesLost ⟨2⟩).2.2.2.1 (by decide +kernel)
  obtain ⟨-, hpath⟩ := hsteps sharedFile (.call directoryRenamed) namesLost rfl
  obtain ⟨call, key, hcall, -, -, -, hlive, hnew⟩ :=
    hpath (by decide +kernel) (by decide +kernel)
  have hcalled : directoryRenamed = call := Step.call.inj hcall
  subst hcalled
  refine ⟨by decide, hedits, ?_, ?_, by decide +kernel, hkind.1, key, hlive, hnew⟩
  · rw [hcontent, hedits, hempty (by decide)]
    decide +kernel
  · rw [hother, hotherEdits, hblank]
    decide +kernel

end State

end FlatTree
