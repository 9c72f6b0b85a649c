import FlatTree.Proofs.Deeds
import FlatTree.Proofs.Records
import FlatTree.Proofs.Succession
import FlatTree.Session

/-!
The nesting of request scopes. Over the stores of a session one opens scopes and closes
them, calls, and reports how transfers ended. A call opens and closes a scope of its own,
answered, refused, or stopped before it began, so between two actions only the scopes of
the session itself are open. Which one is the innermost is read off the actions: the last
that was opened and has only whole scopes after it (`Session.Innermost`).
-/

namespace FlatTree

namespace Session

/-- What is done over a session in one step. -/
inductive Action where
  | enter (request : Request)
  /-- Leaves the innermost scope, at the end of its block or with the failure that was
  raised in it. -/
  | leave (raised : Option Failure)
  | call (store : Nat) (call : Call)
  /-- A transfer over a node has ended, with an error or with none. -/
  | report (store : Nat) (id : NodeId) (failure : Option Failure)
  /-- Sets or takes back the failure that every call of a store is answered with. -/
  | inject (store : Nat) (failure : Option Failure)

/-- The action neither opens nor closes a scope of the session. -/
def Action.Flat : Action → Prop
  | .enter _ | .leave _ => False
  | .call .. | .report .. | .inject .. => True

def take (session : Session) : Action → Session
  | .enter request => session.enter request
  | .leave raised => (session.leave raised).2
  | .call store call => (session.act store call.run).2
  | .report store id failure => (session.act store (Transfer.report id failure)).2
  | .inject store failure =>
      session.changeVolume store fun volume => { volume with injected := failure }

/-- The session after some actions. -/
def follow (session : Session) (actions : List Action) : Session :=
  actions.foldl take session

/-- Actions in which every scope that is opened is closed again, and none is closed that
was open before. -/
inductive Whole : List Action → Prop
  | nil : Whole []
  | flat {action : Action} {rest : List Action} (hflat : action.Flat) (hrest : Whole rest) :
      Whole (action :: rest)
  | scope {request : Request} {inner rest : List Action} {raised : Option Failure}
      (hinner : Whole inner) (hrest : Whole rest) :
      Whole (.enter request :: (inner ++ .leave raised :: rest))

/-- The innermost of the scopes that some actions leave open is that of the request. -/
def Innermost (actions : List Action) (request : Request) : Prop :=
  ∃ before inner, actions = before ++ .enter request :: inner ∧ Whole inner

namespace Whole

variable {first second : List Action}

theorem append (hfirst : Whole first) (hsecond : Whole second) : Whole (first ++ second) := by
  induction hfirst with
  | nil => exact hsecond
  | flat hflat _ ih => exact .flat hflat ih
  | scope hinner _ _ ih =>
      rw [List.cons_append, List.append_assoc, List.cons_append]
      exact .scope hinner ih

theorem concat {action : Action} (h : Whole first) (hflat : action.Flat) :
    Whole (first ++ [action]) :=
  h.append (.flat hflat .nil)

end Whole

variable {session : Session} {action : Action} {actions : List Action} {request : Request}

theorem follow_concat (session : Session) (actions : List Action) (action : Action) :
    session.follow (actions ++ [action]) = (session.follow actions).take action :=
  List.foldl_concat ..

theorem follow_append (session : Session) (earlier later : List Action) :
    session.follow (earlier ++ later) = (session.follow earlier).follow later :=
  List.foldl_append ..

/-- A scope is closed whether a failure was raised in it or not. -/
theorem take_leave (session : Session) (raised : Option Failure) :
    session.take (.leave raised) = { session with scopes := session.scopes.tail } := by
  cases raised with
  | none => rfl
  | some failure => rfl

/-- A call leaves a session as it leaves the state of its store, answered or refused. -/
theorem take_call (session : Session) (store : Nat) (call : Call) :
    session.take (.call store call) =
      session.resume store ((session.state store).serve call) := by
  simp only [take, act, State.serve]
  cases call.run (session.state store) <;> rfl

/-- Only opening and closing changes which scopes are open. -/
theorem scopes_take_of_flat (session : Session) (hflat : action.Flat) :
    (session.take action).scopes = session.scopes := by
  cases action with
  | enter request => exact hflat.elim
  | leave raised => exact hflat.elim
  | call store call =>
      obtain ⟨trail, change, -, hserve⟩ := (session.state store).serve_eq_during call
      rw [take_call, hserve]
      rfl
  | report store id failure => rfl
  | inject store failure => rfl

/-- Whole scopes leave the scopes around them as they were. -/
theorem scopes_follow_of_whole (h : Whole actions) (session : Session) :
    (session.follow actions).scopes = session.scopes := by
  induction h generalizing session with
  | nil => rfl
  | flat hflat _ ih => exact (ih _).trans (session.scopes_take_of_flat hflat)
  | @scope request inner rest raised _ _ ihinner ihrest =>
      have hinner := ihinner (session.enter request)
      have hleft : (((session.enter request).follow inner).take (.leave raised)).scopes =
          session.scopes := by
        rw [take_leave]
        change ((session.enter request).follow inner).scopes.tail = _
        rw [hinner]
        rfl
      calc (session.follow (.enter request :: (inner ++ .leave raised :: rest))).scopes
          = ((((session.enter request).follow inner).take (.leave raised)).follow rest).scopes := by
            rw [follow, List.foldl_cons, List.foldl_append]
            rfl
        _ = session.scopes := (ihrest _).trans hleft

/-- If no scope was open, every scope that is open has been opened by an action and has
only whole scopes after it. -/
theorem opened_of_scopes {session : Session} {actions : List Action} {request : Request}
    {rest : List Request} (h : session.scopes = [])
    (hopen : (session.follow actions).scopes = request :: rest) :
    ∃ before inner, actions = before ++ .enter request :: inner ∧ Whole inner ∧
      (session.follow before).scopes = rest := by
  rcases List.eq_nil_or_concat actions with rfl | ⟨earlier, last, rfl⟩
  · rw [follow, List.foldl_nil, h] at hopen
    cases hopen
  · rw [List.concat_eq_append, follow_concat] at hopen
    by_cases hflat : last.Flat
    · rw [scopes_take_of_flat _ hflat] at hopen
      obtain ⟨before, inner, rfl, hinner, hbefore⟩ := opened_of_scopes h hopen
      exact ⟨before, inner ++ [last], by simp, hinner.concat hflat, hbefore⟩
    · cases last with
      | enter other =>
          obtain ⟨rfl, rfl⟩ := List.cons.inj hopen
          exact ⟨earlier, [], by simp, .nil, rfl⟩
      | leave raised =>
          -- The scope that was left had been opened inside of the one that is innermost now.
          rw [take_leave] at hopen
          have hleft : (session.follow earlier).scopes.tail = request :: rest := hopen
          obtain ⟨left, hscopes⟩ : ∃ left,
              (session.follow earlier).scopes = left :: request :: rest := by
            cases hscopes : (session.follow earlier).scopes with
            | nil =>
                rw [hscopes] at hleft
                cases hleft
            | cons left outer =>
                rw [hscopes] at hleft
                exact ⟨left, congrArg (List.cons left) hleft⟩
          obtain ⟨outside, inside, rfl, hinside, houter⟩ := opened_of_scopes h hscopes
          obtain ⟨before, inner, rfl, hinner, hbefore⟩ := opened_of_scopes h houter
          exact ⟨before, inner ++ .enter left :: (inside ++ [.leave raised]), by simp,
            hinner.append (.scope hinside .nil), hbefore⟩
      | call store call => exact absurd trivial hflat
      | report store id failure => exact absurd trivial hflat
      | inject store failure => exact absurd trivial hflat
termination_by actions.length

/-- The request in force is that of the innermost open scope. -/
theorem current_follow_iff (h : session.scopes = []) :
    (session.follow actions).current = some request ↔ Innermost actions request := by
  constructor
  · intro hcurrent
    obtain ⟨rest, hopen⟩ := List.head?_eq_some_iff.mp hcurrent
    obtain ⟨before, inner, hsplit, hinner, -⟩ := opened_of_scopes h hopen
    exact ⟨before, inner, hsplit, hinner⟩
  · rintro ⟨before, inner, rfl, hinner⟩
    have hscopes := scopes_follow_of_whole hinner ((session.follow before).enter request)
    rw [follow_append]
    change (((session.follow before).enter request).follow inner).scopes.head? = _
    rw [hscopes]
    rfl

/-- What a call lets be seen is seen under its own request, and if a failure is injected,
nothing is seen. -/
theorem seen_of_call (session : Session) (store : Nat) (call : Call) :
    ∃ seen, (session.take (.call store call)).trace = session.trace ++ seen ∧
      (∀ observation ∈ seen, observation.current = some call.request) ∧
      ((session.volume store).injected ≠ none → seen = []) := by
  rw [take_call]
  cases hinjected : (session.volume store).injected with
  | some failure =>
      refine ⟨[], ?_, by simp, fun _ => rfl⟩
      have hvolume : (session.state store).volume.injected = some failure := hinjected
      unfold State.serve
      rw [Call.run_eq, hvolume]
      exact (List.append_nil _).symm
  | none =>
      obtain ⟨trail, change, -, hserve⟩ := (session.state store).serve_eq_during call
      obtain ⟨looks, hlooks, htrace⟩ :=
        (session.state store).trace_during call.request trail change
      rw [← hserve] at htrace
      refine ⟨_, htrace, ?_, fun hne => absurd rfl hne⟩
      intro observation member
      rcases List.mem_append.mp member with hlook | hrecord
      · exact (hlooks observation hlook).2
      · obtain ⟨record, -, rfl⟩ := List.mem_map.mp hrecord
        rfl

/-- Request scopes nest. If no scope was open at first, then after any actions the request
in force is that of the innermost scope that they leave open, or none if they leave none
open. In every step, a call leaves the request in force as it was, however it ends, and all
that is seen meanwhile is seen under its own request; the record of a transfer's end is
seen under the request in force; and no other action lets anything be seen. -/
theorem scopes_nest (session : Session) (h : session.scopes = []) :
    (∀ actions request,
      (session.follow actions).current = some request ↔ Innermost actions request) ∧
    (∀ actions, (session.follow actions).current = none ↔
      ∀ request, ¬Innermost actions request) ∧
    ∀ earlier action,
      let before := session.follow earlier
      let after := session.follow (earlier ++ [action])
      ∃ seen, after.trace = before.trace ++ seen ∧
        match action with
        | .call store call =>
            after.current = before.current ∧
              (∀ observation ∈ seen, observation.current = some call.request) ∧
              ((before.volume store).injected ≠ none → seen = [])
        | .report store id failure =>
            after.current = before.current ∧
              seen = [⟨.logged (.transferEnded (before.heap.get id).path failure),
                before.current, before.heap, (before.volume store).table⟩]
        | .enter _ | .leave _ | .inject _ _ => seen = [] := by
  refine ⟨fun actions request => current_follow_iff h, fun actions => ?_, ?_⟩
  · rw [Option.eq_none_iff_forall_ne_some]
    exact forall_congr' fun request => not_congr (current_follow_iff h)
  · intro earlier action before after
    have hafter : after = before.take action := session.follow_concat earlier action
    rw [hafter]
    cases action with
    | enter request => exact ⟨[], (List.append_nil _).symm, rfl⟩
    | leave raised =>
        rw [take_leave]
        exact ⟨[], (List.append_nil _).symm, rfl⟩
    | inject store failure => exact ⟨[], (List.append_nil _).symm, rfl⟩
    | report store id failure => exact ⟨_, rfl, rfl, rfl⟩
    | call store call =>
        obtain ⟨seen, htrace, hunder, hsilent⟩ := before.seen_of_call store call
        refine ⟨seen, htrace, ?_, hunder, hsilent⟩
        unfold current
        have hscopes : (before.take (.call store call)).scopes = before.scopes :=
          before.scopes_take_of_flat trivial
        rw [hscopes]

/-- A request whose scope is opened around others. -/
def outerRequest : Request := { method := .stat, path := Path.root }

/-- A call inside the outer scope, then an inner scope that a refused call is made in and
that its failure leaves. -/
def nestedActions : List Action :=
  [.enter outerRequest, .call 0 State.fileMade, .enter State.fileMade.request,
    .inject 0 (some ⟨.runtime, [.text ['x']]⟩), .call 0 State.fileMade,
    .leave (some ⟨.runtime, [.text ['x']]⟩)]

/-- The outer scope is the innermost again when the inner one is left, and the end of a
transfer is then logged under it. -/
theorem report_under_outer_scope :
    let session := Session.start [{}]
    let before := session.follow nestedActions
    let after := session.follow (nestedActions ++ [.report 0 ⟨0⟩ none])
    session.scopes = [] ∧ before.current = some outerRequest ∧
      after.current = some outerRequest ∧
      ∃ observation, after.trace = before.trace ++ [observation] ∧
        observation.current = some outerRequest := by
  intro session before after
  have hscopes : session.scopes = [] := rfl
  obtain ⟨hcurrent, -, hsteps⟩ := scopes_nest session hscopes
  have hinner : Innermost nestedActions outerRequest :=
    ⟨[], nestedActions.tail, rfl,
      .flat (by exact trivial)
        (.scope (.flat (by exact trivial) (.flat (by exact trivial) .nil)) .nil)⟩
  have hbefore : before.current = some outerRequest := (hcurrent _ _).mpr hinner
  obtain ⟨seen, htrace, hkept, hseen⟩ := hsteps nestedActions (.report 0 ⟨0⟩ none)
  subst hseen
  exact ⟨hscopes, hbefore, hkept.trans hbefore, _, htrace, hbefore⟩

end Session

end FlatTree
