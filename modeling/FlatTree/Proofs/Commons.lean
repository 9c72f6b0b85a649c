import FlatTree.Proofs.Area
import FlatTree.Proofs.Run

/-!
A store that several clients share. Each client has a directory right below the
root for its area, calls the store, and works on the nodes that it has obtained.
A client knows a node by the place at which it first obtained it, and sees all of
the node but its time of creation; that is what its responses are made of. A
client that keeps to its area is confined. A call that follows links for ever comes
to no answer and keeps the store locked, so turns with such a call have no run.
-/

namespace FlatTree

/-- What a client does in one step. Work on a node names the node by its place
among the nodes that the client has obtained so far. -/
inductive Deed where
  | call (call : Call)
  | read (handle : Nat) (size offset : Int)
  | write (handle : Nat) (data : Bytes) (offset : Int)
  | truncate (handle : Nat) (size : Int)

/-- A deed of the client whose area has the given name. -/
structure Turn where
  client : Segment
  deed : Deed

def Node.timeless (node : Node) : Node := { node with createdAt := 0 }

/-- A node as a client sees it: where the client first obtained it, and what it
is like. -/
structure Sight where
  place : Nat
  node : Node
  deriving DecidableEq

inductive Response where
  | refused (failure : Failure)
  | node (sight : Sight)
  | listing (sights : List Sight)
  | done
  | bytes (data : Bytes)
  | written (count : Nat)
  | noHandle
  deriving DecidableEq

def State.sight (state : State) (held : List NodeId) (id : NodeId) : Sight :=
  ⟨held.idxOf id, (state.node id).timeless⟩

namespace Reply

/-- The nodes that a client obtains with a reply. -/
def gained : Reply → List NodeId
  | .node id => [id]
  | .listing found => found.nodes
  | .done => []

def response (state : State) (held : List NodeId) : Reply → Response
  | .node id => .node (state.sight held id)
  | .listing found => .listing (found.nodes.map (state.sight held))
  | .done => .done

end Reply

/-- What comes of a deed that comes to an end. -/
structure Effect where
  state : State
  gained : List NodeId
  response : Response

namespace Deed

/-- Work on a node that was obtained. -/
def onHandle (state : State) (held : List NodeId) (handle : Nat)
    (work : NodeId → Act Response) : Effect :=
  match held[handle]? with
  | none => ⟨state, [], .noHandle⟩
  | some id =>
      match work id state with
      | .ok response after => ⟨after, [], response⟩
      | .error refusal after => ⟨after, [], .refused refusal.failure⟩

/-- What comes of a deed, if it comes to an end. A call that searches for ever does not,
and its client gets no response. -/
def perform (state : State) (held : List NodeId) : Deed → Option Effect
  | .call asked =>
      match asked.answer state with
      | .ok reply =>
          some ⟨state.serve asked, reply.gained,
            reply.response (state.serve asked) (held ++ reply.gained)⟩
      | .error refusal =>
          if refusal.endless then none
          else some ⟨state.serve asked, [], .refused refusal.failure⟩
  | .read handle size offset =>
      some (onHandle state held handle fun id =>
        Response.bytes <$> Transfer.readAt id size offset)
  | .write handle data offset =>
      some (onHandle state held handle fun id =>
        Response.written <$> Transfer.writeAt id data offset)
  | .truncate handle size =>
      some (onHandle state held handle fun id =>
        (fun _ => Response.done) <$> Transfer.truncate id size)

end Deed

/-- A shared store, with the nodes that each client has obtained and the responses
that it has got. -/
structure Commons where
  state : State
  held : Segment → List NodeId
  heard : Segment → List Response

namespace Commons

/-- An empty store in which each client's directory was made. -/
def found (settings : Settings) (clients : List Segment) : Commons where
  state := (State.start settings).run
    (clients.map fun name => ⟨.command, { method := .mkdir, path := Path.top name }⟩)
  held := fun _ => []
  heard := fun _ => []

/-- The store after what came of a client's deed. -/
def settle (commons : Commons) (client : Segment) (effect : Effect) : Commons where
  state := effect.state
  held := fun other =>
    if other = client then commons.held other ++ effect.gained else commons.held other
  heard := fun other =>
    if other = client then commons.heard other ++ [effect.response] else commons.heard other

/-- The store after a turn, if the turn comes to an end. -/
def take (commons : Commons) (turn : Turn) : Option Commons :=
  (turn.deed.perform commons.state (commons.held turn.client)).map
    (commons.settle turn.client)

/-- The store after turns taken one after the other, each a single step. A turn that does
not come to an end keeps all later calls waiting, and there is no run of such turns. -/
def run (commons : Commons) (turns : List Turn) : Option Commons :=
  turns.foldlM take commons

theorem run_cons (commons : Commons) (turn : Turn) (rest : List Turn) :
    commons.run (turn :: rest) = (commons.take turn).bind (·.run rest) := rfl

theorem run_append (commons : Commons) (earlier later : List Turn) :
    commons.run (earlier ++ later) = (commons.run earlier).bind (·.run later) :=
  List.foldlM_append

/-- The live entries of a client's area, in table order, as the client sees them. -/
def entries (commons : Commons) (client : Segment) : List (Path × Sight) :=
  let live := commons.state.volume.table.live.filter (·.1.Within (Path.top client))
  let known := commons.held client ++ live.map Prod.snd
  live.map fun entry => (entry.1, commons.state.sight known entry.2)

end Commons

/-- The services that make and change nothing. -/
def Service.readsOnly : Service → Bool
  | .read | .list | .lstat => true
  | .write | .openFile | .command => false

/-- All paths of the call are under an area. A call that only reads may also name
the area itself, and a target counts where a command makes use of it. -/
structure Call.Confined (call : Call) (area : Path) : Prop where
  path : call.request.path.Under area ∨
    (call.service.readsOnly = true ∧ call.request.path = area)
  target : call.service = .command →
    call.request.method = .rename ∨ call.request.method = .link ∨
      call.request.method = .symlink →
    call.request.target.Under area

def Turn.Confined (turn : Turn) : Prop :=
  match turn.deed with
  | .call call => call.Confined (Path.top turn.client)
  | _ => True

end FlatTree
