import FlatTree.Proofs.Query

/-!
Every call in two phases. Its plan (`Call.plan`) is a question: it makes all the
look-ups and all the checks, and ends in a fault or in a reply together with
the one change that is to be made (`Change`). Then the change is made
(`State.commit`), and nothing can fail any more. `Call.run_eq` says that this is
how each call of each service runs, from any state whatever.
-/

namespace FlatTree

/-- What a call changes when all its checks have passed. -/
inductive Change where
  | keep
  /-- Another value for one node. -/
  | rewrite (id : NodeId) (node : Node)
  /-- A new node under its own path. -/
  | add (node : Node) (record : Record)
  /-- A second path for a node. -/
  | share (target path : Path) (id : NodeId)
  | move (source target : Path) (moves : List Move)
  | remove (path : Path)

namespace State

/-- The state after a change, with the record of the change logged. -/
def commit (state : State) : Change → State
  | .keep => state
  | .rewrite id node => { state with heap := state.heap.set id node }
  | .add node record =>
      let (id, heap) :=
        state.heap.create { node with delay := state.volume.settings.writeDelay }
      (({ state with heap }).changeTable (·.insert node.path (some id))).observe
        [.logged record]
  | .share target path id =>
      (state.changeTable (·.insert target (some id))).observe
        [.logged (.linked target path)]
  | .move source target moves =>
      (state.relocate moves).observe [.logged (.renamed source target)]
  | .remove path =>
      if (state.volume.table.live? path).isSome then
        (state.purge path).observe [.logged (.removed path)]
      else state.purge path

/-- The state after work that was done while a request was in force. -/
def during (state : State) (request : Request) (work : State → State) : State :=
  { work { state with scopes := request :: state.scopes } with scopes := state.scopes }

end State

namespace Plan

open Query

def view (id : NodeId) : Query NodeId := do
  match (← node id).viewFault? with
  | some fault => refuse fault
  | none => return id

def openToRead (path : Path) : Query (Reply × Change) := do
  let id ← view (← resolve path)
  return (.node id, .keep)

def createFile (path : Path) : Query (Reply × Change) := do
  let directory ← node (← lookUp path.parent)
  if directory.isDirectory then
    return (.node (← fresh), .add { path } (.fileCreated path))
  else refuse (.parentNotADirectory directory.path)

def openToWrite (path : Path) : Query (Reply × Change) := do
  match ← seek path with
  | none => createFile path
  | some id =>
      let target ← if (← node id).isLink then resolve path else pure id
      return (.node (← view target), .keep)

def list (method : Method) (path : Path) : Query (Reply × Change) := do
  let id ← resolve path
  match method with
  | .list =>
      let directory ← node id
      if directory.isDirectory then
        let listed ← volume
        return (.listing ⟨(listed.children directory.path).filterMap listed.table.live?⟩,
          .keep)
      else refuse (.notADirectory path)
  | .stat | .readlink => return (.listing ⟨[id]⟩, .keep)
  | method => refuse (.unsupported method .list)

def lstat (path : Path) : Query (Reply × Change) := do
  return (.listing ⟨[← lookUp path]⟩, .keep)

def requireParent (path : Path) : Query Unit := do
  let parent ← node (← resolve path.parent)
  if parent.isDirectory then return () else refuse (.notADirectory parent.path)

def requireFree (path : Path) : Query Unit := do
  if (← volume).occupied path then refuse (.alreadyExists path) else return ()

def setstat (request : Request) : Query Change := do
  let id ← resolve request.path
  if request.attributes.hasSize then
    match request.attributes.size with
    | some (.whole size) => return .rewrite id (← orRefuse ((← node id).truncate size))
    | _ => refuse .sizeNotWhole
  else return .keep

def rename (source target : Path) : Query Change := do
  if source = Path.root then refuse (.rootRenamed source)
  else
    let id ← lookUp source
    requireFree target
    let isDirectory := (← node id).isDirectory
    if isDirectory ∧ target.Under source then refuse (.insideItself target)
    else
      requireParent target
      let moves := (← volume).moves id isDirectory source target
      let occupied := (← volume).occupied
      match moves.tail.find? fun move => occupied move.target with
      | some move => refuse (.alreadyExists move.target)
      | none => return .move source target moves

def remove (path : Path) : Query Change := do
  if path = Path.root then refuse (.rootRemoved path)
  else
    let parent ← node (← resolve path.parent)
    let below := (← volume).below path
    if parent.isDirectory ∧ below ≠ [] then refuse (.notEmpty path)
    else return .remove path

def mkdir (path : Path) : Query Change := do
  requireParent path
  requireFree path
  return .add { path, isDirectory := true } (.directoryCreated path)

def link (path target : Path) : Query Change := do
  let id ← resolve path
  if (← node id).isDirectory then refuse (.directoryLinked path)
  else
    requireFree target
    requireParent target
    return .share target path id

def symlink (path target : Path) : Query Change := do
  let _ ← resolve path
  requireFree target
  requireParent target
  return .add { path := target, target := path } (.symlinked target path)

def perform (request : Request) : Query Change :=
  match request.method with
  | .setstat => setstat request
  | .rename => rename request.path request.target
  | .rmdir | .remove => remove request.path
  | .mkdir => mkdir request.path
  | .link => link request.path request.target
  | .symlink => symlink request.path request.target
  | method => refuse (.unsupported method .command)

end Plan

/-- What a call is going to reply and to change, if it is not refused. -/
def Call.plan (call : Call) : Query (Reply × Change) :=
  match call.service with
  | .read => Plan.openToRead call.request.path
  | .write | .openFile => Plan.openToWrite call.request.path
  | .list => Plan.list call.request.method call.request.path
  | .lstat => Plan.lstat call.request.path
  | .command => do return (.done, ← Plan.perform call.request)

namespace Query

open Act

/-- Makes the change that a question ended in and gives its reply. -/
def carryOut {α : Type} (query : Query (α × Change)) : Act α := do
  let (reply, change) ← ask query
  modify (·.commit change)
  return reply

/-- Makes the change that a question ended in. -/
def enact (query : Query Change) : Act Unit := do
  let change ← ask query
  modify (·.commit change)

theorem modify_keep : (modify (·.commit .keep) : Act Unit) = pure () := rfl

theorem ask_view (id : NodeId) : ask (Plan.view id) = Transfer.view id := by
  unfold Plan.view Transfer.view
  rw [ask_bind, ask_node]
  congr 1
  funext found
  cases found.viewFault? <;> rfl

theorem ask_requireParent (path : Path) :
    ask (Plan.requireParent path) = Command.requireParent path := by
  unfold Plan.requireParent Command.requireParent
  simp only [ask_bind, ask_resolve, ask_node, ask_ite, ask_pure, ask_refuse]

theorem ask_requireFree (path : Path) :
    ask (Plan.requireFree path) = Command.requireFree path := by
  funext state
  unfold Plan.requireFree Command.requireFree
  simp only [ask_bind, ask_ite, ask_pure, ask_refuse]
  rw [bind_run, bind_run, get_run]
  simp only [ask, volume, State.visitAll_nil, Volume.occupied_tidy]

theorem carryOut_openToRead (path : Path) :
    carryOut (Plan.openToRead path) =
      Reply.node <$> (do Transfer.view (← Act.resolve path)) := by
  simp only [carryOut, Plan.openToRead, ask_bind, ask_resolve, ask_view, ask_pure,
    bind_assoc, pure_bind, modify_keep, map_eq_pure_bind]

theorem enact_mkdir (path : Path) : enact (Plan.mkdir path) = Command.mkdir path := by
  simp only [enact, Plan.mkdir, Command.mkdir, ask_bind, ask_requireParent,
    ask_requireFree, ask_pure, bind_assoc, pure_bind]
  rfl

theorem enact_symlink (path target : Path) :
    enact (Plan.symlink path target) = Command.symlink path target := by
  simp only [enact, Plan.symlink, Command.symlink, ask_bind, ask_resolve,
    ask_requireParent, ask_requireFree, ask_pure, bind_assoc, pure_bind]
  rfl

theorem enact_link (path target : Path) :
    enact (Plan.link path target) = Command.link path target := by
  simp only [enact, Plan.link, Command.link, ask_bind, ask_resolve, ask_node, ask_ite,
    ask_refuse, ask_requireParent, ask_requireFree, ask_pure, bind_assoc]
  congr 1
  funext id
  congr 1
  funext found
  split
  · rfl
  · simp only [bind_assoc, pure_bind]
    rfl

theorem enact_remove (path : Path) : enact (Plan.remove path) = Command.remove path := by
  unfold enact Plan.remove Command.remove
  simp only [ask_ite, ask_bind, ask_refuse, ask_resolve, ask_node, ask_pure]
  split
  · rfl
  · simp only [bind_assoc]
    congr 1
    funext id
    congr 1
    funext parent
    funext state
    by_cases hfull : parent.isDirectory ∧ state.volume.below path ≠ []
    · simp only [bind_run, get_run, ask, volume, State.visitAll_nil,
        Volume.below_tidy, if_pos hfull]
      rfl
    · simp only [bind_run, get_run, ask, volume, State.visitAll_nil,
        Volume.below_tidy, if_neg hfull, pure_run, modify_run, State.commit]
      split <;> rfl

theorem enact_rename (source target : Path) :
    enact (Plan.rename source target) = Command.rename source target := by
  unfold enact Plan.rename Command.rename
  simp only [ask_ite, ask_bind, ask_refuse, ask_lookUp, ask_node, ask_requireParent,
    ask_requireFree]
  split
  · rfl
  · simp only [bind_assoc]
    congr 1
    funext id
    congr 1
    funext _
    congr 1
    funext found
    split
    · rfl
    · simp only [bind_assoc]
      congr 1
      funext _
      funext state
      simp only [bind_run, get_run, ask, volume, State.visitAll_nil, Volume.moves_tidy,
        Volume.occupied_tidy]
      cases List.find? (fun move => state.volume.occupied move.target)
        (state.volume.moves id found.isDirectory source target).tail <;> rfl

theorem enact_setstat (request : Request) :
    enact (Plan.setstat request) = Command.setstat request := by
  simp only [enact, Plan.setstat, Command.setstat, ask_bind, ask_resolve, ask_ite,
    ask_pure, bind_assoc]
  congr 1
  funext id
  split
  · cases request.attributes.size with
    | none => rfl
    | some size =>
        cases size with
        | real _ => rfl
        | whole size =>
            simp only [ask_bind, ask_node, ask_orRefuse, ask_pure, bind_assoc, pure_bind]
            rfl
  · rfl

theorem enact_perform (request : Request) :
    enact (Plan.perform request) = Command.perform request := by
  unfold Plan.perform Command.perform
  cases request.method with
  | setstat => exact enact_setstat request
  | rename => exact enact_rename request.path request.target
  | rmdir => exact enact_remove request.path
  | remove => exact enact_remove request.path
  | mkdir => exact enact_mkdir request.path
  | link => exact enact_link request.path request.target
  | symlink => exact enact_symlink request.path request.target
  | list => rfl
  | stat => rfl
  | readlink => rfl
  | get => rfl
  | put => rfl
  | openFile => rfl

theorem carryOut_lstat (path : Path) :
    carryOut (Plan.lstat path) = (do
      let id ← Act.lookUp path
      return .listing ⟨[id]⟩) := by
  simp only [carryOut, Plan.lstat, ask_bind, ask_lookUp, ask_pure, bind_assoc,
    pure_bind, modify_keep]

theorem carryOut_list (method : Method) (path : Path) :
    carryOut (Plan.list method path) = Reply.listing <$> (do
      let id ← Act.resolve path
      match method with
      | .list =>
          let node ← Act.node id
          if node.isDirectory then Directory.children node
          else Act.refuse (.notADirectory path)
      | .stat | .readlink => return ⟨[id]⟩
      | method => Act.refuse (.unsupported method .list)) := by
  simp only [carryOut, Plan.list, ask_bind, ask_resolve, bind_assoc, map_eq_pure_bind]
  congr 1
  funext id
  cases method with
  | list =>
      simp only [ask_bind, ask_node, ask_ite, ask_pure, ask_refuse, bind_assoc]
      congr 1
      funext found
      split
      · funext state
        simp only [bind_run, ask, volume, State.visitAll_nil, Volume.children_tidy,
          Directory.children, get_run, pure_run, modify_run]
        simp [Volume.tidy, State.commit]
      · rfl
  | _ => rfl

theorem view_run (id : NodeId) (state : State) :
    Transfer.view id state = match (state.heap.get id).viewFault? with
      | some fault => .error (.fault fault) state
      | none => .ok id state := by
  unfold Transfer.view
  rw [bind_run]
  change (match (state.heap.get id).viewFault? with
    | some fault => Act.refuse fault
    | none => pure id : Act NodeId) state = _
  cases (state.heap.get id).viewFault? <;> rfl

/-- Making a node, putting it under its path and logging it is one change. -/
theorem add_run {β : Type} (node : Node) (record : Record) (next : NodeId → Act β)
    (state : State) :
    (do
      let id ← makeNode node
      place node.path id
      log record
      next id : Act β) state =
      next ⟨state.heap.size⟩ (state.commit (.add node record)) := rfl

/-- A new node gets the first free number. -/
theorem get_commit_add (state : State) (node : Node) (record : Record) :
    (state.commit (.add node record)).heap.get ⟨state.heap.size⟩ =
      { node with delay := state.volume.settings.writeDelay, createdAt := state.heap.size } :=
  Heap.get_create_self state.heap
    { node with delay := state.volume.settings.writeDelay }

theorem carryOut_createFile (path : Path) :
    carryOut (Plan.createFile path) = Reply.node <$> (do
      Transfer.view (← Transfer.createFile path)) := by
  simp only [carryOut, Plan.createFile, Transfer.createFile, ask_bind, ask_lookUp,
    ask_node, ask_ite, ask_refuse, ask_pure, bind_assoc, map_eq_pure_bind]
  congr 1
  funext parent
  congr 1
  funext directory
  split
  · funext state
    have hview : Transfer.view ⟨state.heap.size⟩
        (state.commit (.add { path } (.fileCreated path))) =
          .ok ⟨state.heap.size⟩ (state.commit (.add { path } (.fileCreated path))) := by
      simp [view_run, get_commit_add, Node.viewFault?]
    simp only [bind_assoc, pure_bind]
    rw [add_run { path }, bind_run (Transfer.view _), hview]
    rfl
  · rfl

/-- Which entry a call writes to is found before anything is made, so a file
that is made is a view for writing. -/
theorem carryOut_openToWrite (path : Path) :
    carryOut (Plan.openToWrite path) = Reply.node <$> (do
      Transfer.view (← Transfer.target path)) := by
  have hcreate := carryOut_createFile path
  simp only [carryOut, Plan.openToWrite, Transfer.target, ask_bind, ask_seek,
    bind_assoc, map_eq_pure_bind] at hcreate ⊢
  congr 1
  funext found
  cases found with
  | none => exact hcreate
  | some id =>
      simp only [ask_bind, ask_node, bind_assoc]
      congr 1
      funext entry
      split <;>
        simp only [ask_bind, ask_resolve, ask_view, ask_pure, bind_assoc, pure_bind,
          modify_keep]

theorem carryOut_command (request : Request) :
    carryOut (do return (Reply.done, ← Plan.perform request)) =
      (fun _ => Reply.done) <$> Command.perform request := by
  rw [← enact_perform]
  simp only [carryOut, enact, ask_bind, ask_pure, bind_assoc, pure_bind,
    map_eq_pure_bind]

end Query

open Act Query

theorem serving_run {α : Type} (request : Request) (step : Act α) (state : State) :
    serving request step state = match state.volume.injected with
      | some failure => .error (.injected failure) state
      | none => within request step state := by
  unfold serving
  rw [bind_run, get_run]
  cases hinjected : state.volume.injected with
  | some failure =>
      simp only [hinjected]
      rfl
  | none => simp only [hinjected]

theorem serving_map {α β : Type} (request : Request) (f : α → β) (step : Act α) :
    serving request (f <$> step) = f <$> serving request step := by
  funext state
  simp only [map_eq_pure_bind, bind_run, serving_run]
  cases state.volume.injected with
  | some failure => rfl
  | none =>
      simp only [within, bind_run, pure_run]
      cases step { state with scopes := request :: state.scopes } <;> rfl

/-- Whether a node is a view for transfers does not hang on the request in force. -/
theorem serving_view (request : Request) (step : Act NodeId) :
    serving request (do Transfer.view (← step)) =
      (do Transfer.view (← serving request step)) := by
  funext state
  rw [bind_run, serving_run, serving_run]
  cases state.volume.injected with
  | some failure => rfl
  | none =>
      simp only [within, bind_run]
      cases step { state with scopes := request :: state.scopes } with
      | error refusal after => rfl
      | ok id after =>
          simp only [view_run]
          cases (after.heap.get id).viewFault? <;> rfl

/-- Every call asks its plan and carries it out, with its request in force. -/
theorem Call.run_eq_carryOut (call : Call) :
    call.run = serving call.request (carryOut call.plan) := by
  unfold Call.run Call.plan
  cases call.service with
  | read =>
      simp only [carryOut_openToRead, serving_map, serving_view]
      rfl
  | write =>
      simp only [carryOut_openToWrite, serving_map, serving_view]
      rfl
  | openFile =>
      simp only [carryOut_openToWrite, serving_map, serving_view]
      rfl
  | list =>
      simp only [carryOut_list, serving_map]
      rfl
  | lstat =>
      simp only [Directory.lstat]
      rw [← serving_map, carryOut_lstat, map_eq_pure_bind]
      simp only [bind_assoc, pure_bind]
  | command => rw [carryOut_command, serving_map, Command.serve]

/-- How a call runs, from any state: an injected failure comes first and changes
nothing. Else the plan is asked. A fault leaves only the look-ups behind; a
reply comes with the change that was planned. -/
theorem Call.run_eq (call : Call) (state : State) :
    call.run state = match state.volume.injected with
      | some failure => .error (.injected failure) state
      | none =>
          let finding := call.plan state.volume.tidy state.heap
          match finding.outcome with
          | .error fault =>
              .error (.fault fault)
                (state.during call.request (·.visitAll finding.trail))
          | .ok (reply, change) =>
              .ok reply (state.during call.request
                fun state => (state.visitAll finding.trail).commit change) := by
  rw [run_eq_carryOut, serving_run]
  cases state.volume.injected with
  | some failure => rfl
  | none =>
      simp only [within, carryOut, bind_run, ask, modify_run, pure_run, State.during]
      cases (call.plan state.volume.tidy state.heap).outcome with
      | error fault => rfl
      | ok planned => rfl

end FlatTree
