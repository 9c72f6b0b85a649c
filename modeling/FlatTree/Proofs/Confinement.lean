import FlatTree.Proofs.Endless
import FlatTree.Proofs.Founding
import FlatTree.Proofs.Separation

/-!
Confined clients of a shared store do not notice each other. What a client is
answered, and what stands in its area at the end, is the same in every
interleaving with the turns of others as when it takes its turns alone. One turn
of the client itself keeps the store a twin of the one that it has alone, and one
turn of another client leaves its area untouched; a run follows by induction over
the turns. A turn comes to an end in the one store just when it does in the other,
so an interleaving has a run just when the turns of each client alone have one.
-/

namespace FlatTree

/-- Corresponding nodes have the same place in lists of corresponding nodes. -/
theorem idxOf_eq_of_forall₂ {same : NodeId → NodeId → Prop} (hunique : Relator.BiUnique same)
    {known others : List NodeId} (hknown : List.Forall₂ same known others) {a b : NodeId}
    (hsame : same a b) : known.idxOf a = others.idxOf b := by
  induction hknown with
  | nil => rfl
  | @cons held other known others hhead _ ih =>
      have hiff : held = a ↔ other = b := Relator.rel_eq hunique hhead hsame
      rw [List.idxOf_cons, List.idxOf_cons, ih]
      by_cases hheld : held = a
      · rw [hheld, hiff.mp hheld, beq_self_eq_true, beq_self_eq_true]
      · have hother : other ≠ b := fun heq => hheld (hiff.mpr heq)
        rw [beq_false_of_ne hheld, beq_false_of_ne hother]

/-- A handle is good for both lists, and for corresponding nodes, or for neither. -/
theorem getElem?_cases_of_forall₂ {same : NodeId → NodeId → Prop}
    {known others : List NodeId} (hknown : List.Forall₂ same known others) (handle : Nat) :
    (known[handle]? = none ∧ others[handle]? = none) ∨
      ∃ a b, known[handle]? = some a ∧ others[handle]? = some b ∧ same a b := by
  induction hknown generalizing handle with
  | nil => exact Or.inl ⟨rfl, rfl⟩
  | @cons held other known others hhead _ ih =>
      cases handle with
      | zero => exact Or.inr ⟨held, other, rfl, rfl, hhead⟩
      | succ handle => exact ih handle

/-- Effects that are the same to a client: its states are twins, what it has obtained
corresponds, and the responses are equal. -/
structure Effect.Alike (name : Segment) (same : NodeId → NodeId → Prop)
    (held others : List NodeId) (effect twin : Effect) : Prop where
  state : State.Twin name same effect.state twin.state
  held : List.Forall₂ same (held ++ effect.gained) (others ++ twin.gained)
  response : effect.response = twin.response

/-- Both deeds come to an end with effects that are the same to a client, or neither
comes to an end. -/
def Deed.Alike (name : Segment) (held others : List NodeId) :
    Option Effect → Option Effect → Prop :=
  Option.Rel fun effect twin => ∃ same, effect.Alike name same held others twin

namespace State.Twin

variable {name another : Segment} {same : NodeId → NodeId → Prop} {first second : State}
  {known others : List NodeId} {a b : NodeId} (h : Twin name same first second)

include h

theorem sight_eq (hknown : List.Forall₂ same known others) (hsame : same a b) :
    first.sight known a = second.sight others b := by
  have hnodes : (first.node a).timeless = (second.node b).timeless := h.nodes a b hsame
  unfold State.sight
  rw [idxOf_eq_of_forall₂ h.biunique hknown hsame, hnodes]

theorem response_eq (hknown : List.Forall₂ same known others) {reply answer : Reply}
    (hreply : Reply.Alike same reply answer) :
    reply.response first known = answer.response second others := by
  cases hreply with
  | node hsame => exact congrArg Response.node (h.sight_eq hknown hsame)
  | listing hfound =>
      have hmap := List.rel_map (P := Eq) (fun _ _ hsame => h.sight_eq hknown hsame) hfound
      rw [List.forall₂_eq_eq_eq] at hmap
      exact congrArg Response.listing hmap
  | done => rfl

/-- A confined call comes to the same for twins. -/
theorem perform_call (hknown : List.Forall₂ same known others) {call : Call}
    (hcall : call.Confined (Path.top name)) :
    Deed.Alike name known others ((Deed.call call).perform first known)
      ((Deed.call call).perform second others) := by
  have hserve := serve_calm h.calm call
  have hserve' := serve_calm h.calm' call
  have hanswer := answer_calm h.calm call
  have hanswer' := answer_calm h.calm' call
  unfold Deed.perform
  rcases (h.plan hcall).cases with
    ⟨fault, _, hplan, hplan', rfl⟩ | ⟨⟨reply, change⟩, ⟨answer, other⟩, hplan, hplan', hagreed⟩
  · simp only [hplan] at hserve hanswer
    simp only [hplan'] at hserve' hanswer'
    simp only [hanswer, hanswer']
    split
    · exact .none
    · refine .some ⟨same, h.congr hserve.1 hserve.2 hserve'.1 hserve'.2, ?_, rfl⟩
      rw [List.append_nil, List.append_nil]
      exact hknown
  · simp only [hplan] at hserve hanswer
    simp only [hplan'] at hserve' hanswer'
    have hcommit := h.commit hagreed.change (Call.permitted_of_plan hplan).fits
      (Call.permitted_of_plan hplan').fits
    have htwin := hcommit.congr hserve.1 hserve.2 hserve'.1 hserve'.2
    have hheld : List.Forall₂ (change.grown same first second) (known ++ reply.gained)
        (others ++ answer.gained) := by
      refine List.rel_append ?_ hagreed.reply.gained
      exact hknown.imp fun a b hsame => change.grown_of_same hsame
    simp only [hanswer, hanswer']
    exact .some ⟨change.grown same first second, htwin, hheld,
      htwin.response_eq hheld hagreed.reply⟩

/-- A confined call leaves the areas of other clients untouched. -/
theorem untouched_call (hanother : Path.Proper another) (hne : name ≠ another)
    {call : Call} (hcall : call.Confined (Path.top name)) :
    first.Untouched (Path.top another) (first.serve call) := by
  have hserve := serve_calm h.calm call
  rcases (h.plan hcall).cases with
    ⟨fault, _, hplan, -, -⟩ | ⟨⟨reply, change⟩, _, hplan, -, hagreed⟩
  · simp only [hplan] at hserve
    exact (Untouched.refl h.calm _).congr hserve.1 hserve.2
  · simp only [hplan] at hserve
    exact (h.untouched_commit hanother hne hagreed.change
      (Call.permitted_of_plan hplan).fits).congr hserve.1 hserve.2

end State.Twin

namespace Deed

/-- Work does not look at the time of creation. -/
theorem outcome_alike {node other : Node} (h : node.timeless = other.timeless)
    (deed : Deed) :
    Matches Eq (fun result twin => result.1 = twin.1 ∧
        Option.Rel (fun after later => after.timeless = later.timeless ∧ node.Reworks after)
          result.2 twin.2)
      (deed.outcome node) (deed.outcome other) := by
  cases deed with
  | call asked => exact ⟨rfl, .none⟩
  | read handle size offset =>
      have hread : other.readAt size offset = node.readAt size offset := by
        rw [Node.eq_of_timeless h]
        rfl
      simp only [outcome, hread]
      cases node.readAt size offset with
      | error fault => exact rfl
      | ok data => exact ⟨rfl, .none⟩
  | write handle data offset =>
      refine Matches.bind (Node.writeAt_alike h data offset) ?_
      intro after later hafter
      exact ⟨rfl, .some hafter⟩
  | truncate handle size =>
      refine Matches.bind (Node.truncate_alike h size) ?_
      intro after later hafter
      exact ⟨rfl, .some hafter⟩

end Deed

namespace State.Twin

variable {name another : Segment} {same : NodeId → NodeId → Prop} {first second : State}
  {known others : List NodeId} {a b : NodeId} {deed : Deed} {handle : Nat}
  (h : Twin name same first second)

include h

/-- Work on corresponding nodes ends in the same fault, or in the same response and
the same change. -/
theorem outcome_cases (hsame : same a b) (deed : Deed) :
    (∃ fault, deed.outcome (first.heap.get a) = .error fault ∧
        deed.outcome (second.heap.get b) = .error fault) ∨
      ∃ response value other, deed.outcome (first.heap.get a) = .ok (response, value) ∧
        deed.outcome (second.heap.get b) = .ok (response, other) ∧
        Change.Alike (Path.top name) same first (Deed.change a value)
          (Deed.change b other) := by
  rcases (Deed.outcome_alike (h.nodes a b hsame) deed).cases with
    ⟨fault, _, hfirst, hsecond, rfl⟩ |
      ⟨⟨response, value⟩, ⟨_, other⟩, hfirst, hsecond, hresponse, hvalue⟩
  · exact Or.inl ⟨fault, hfirst, hsecond⟩
  · cases hresponse
    refine Or.inr ⟨response, value, other, hfirst, hsecond, ?_⟩
    cases hvalue with
    | none => exact .keep
    | some halike => exact .rewrite hsame halike.1 halike.2

omit h in
theorem fits_change (table : Table) (id : NodeId) (value : Option Node) :
    (Deed.change id value).Fits table := by
  cases value with
  | none => trivial
  | some node => trivial

theorem perform_handle (hknown : List.Forall₂ same known others)
    (hhandle : deed.handle? = some handle) :
    Deed.Alike name known others (deed.perform first known) (deed.perform second others) := by
  have hheld : List.Forall₂ same (known ++ []) (others ++ []) := by
    rw [List.append_nil, List.append_nil]
    exact hknown
  rw [Deed.perform_of_handle hhandle, Deed.perform_of_handle hhandle]
  rcases getElem?_cases_of_forall₂ hknown handle with
    ⟨hfirst, hsecond⟩ | ⟨a, b, hfirst, hsecond, hsame⟩
  · rw [hfirst, hsecond]
    exact .some ⟨same, h, hheld, rfl⟩
  · rw [hfirst, hsecond]
    simp only
    rcases h.outcome_cases hsame deed with
      ⟨fault, hdone, hdone'⟩ | ⟨response, value, other, hdone, hdone', halike⟩
    · rw [hdone, hdone']
      exact .some ⟨same, h, hheld, rfl⟩
    · rw [hdone, hdone']
      have hcommit := h.commit halike (fits_change _ a value) (fits_change _ b other)
      refine .some ⟨_, hcommit, ?_, rfl⟩
      exact hheld.imp fun _ _ hheld => (Deed.change a value).grown_of_same hheld

theorem untouched_handle (hknown : List.Forall₂ same known others)
    (hanother : Path.Proper another) (hne : name ≠ another)
    (hhandle : deed.handle? = some handle) {effect : Effect}
    (heffect : deed.perform first known = some effect) :
    first.Untouched (Path.top another) effect.state := by
  rw [Deed.perform_of_handle hhandle] at heffect
  cases heffect
  rcases getElem?_cases_of_forall₂ hknown handle with
    ⟨hfirst, -⟩ | ⟨a, b, hfirst, -, hsame⟩
  · rw [hfirst]
    exact .refl h.calm _
  · rw [hfirst]
    simp only
    rcases h.outcome_cases hsame deed with ⟨fault, hdone, -⟩ | ⟨response, value, other,
      hdone, -, halike⟩
    · rw [hdone]
      exact .refl h.calm _
    · rw [hdone]
      exact h.untouched_commit hanother hne halike (fits_change _ a value)

/-- A turn of the client comes to the same for twins. -/
theorem perform_alike (hknown : List.Forall₂ same known others)
    (hturn : (Turn.mk name deed).Confined) :
    Deed.Alike name known others (deed.perform first known) (deed.perform second others) := by
  cases deed with
  | call asked => exact h.perform_call hknown hturn
  | read handle size offset => exact h.perform_handle hknown rfl
  | write handle data offset => exact h.perform_handle hknown rfl
  | truncate handle size => exact h.perform_handle hknown rfl

/-- A turn of the client leaves the areas of other clients untouched. -/
theorem untouched_perform (hknown : List.Forall₂ same known others)
    (hanother : Path.Proper another) (hne : name ≠ another)
    (hturn : (Turn.mk name deed).Confined) {effect : Effect}
    (heffect : deed.perform first known = some effect) :
    first.Untouched (Path.top another) effect.state := by
  cases deed with
  | call asked =>
      rw [Deed.state_of_call heffect]
      exact h.untouched_call hanother hne hturn
  | read handle size offset => exact h.untouched_handle hknown hanother hne rfl heffect
  | write handle data offset => exact h.untouched_handle hknown hanother hne rfl heffect
  | truncate handle size => exact h.untouched_handle hknown hanother hne rfl heffect

end State.Twin

/-- Stores that are the same to a client, with what it has obtained and heard. -/
structure Commons.Twin (client : Segment) (together alone : Commons) : Prop where
  states : ∃ same, State.Twin client same together.state alone.state ∧
    List.Forall₂ same (together.held client) (alone.held client)
  heard : together.heard client = alone.heard client

namespace Commons

variable {client : Segment} {together alone alone' after : Commons} {turn : Turn}
  {turns : List Turn}

/-- A turn of its own is the same turn to a client in twins. -/
theorem Twin.own (h : Twin turn.client together alone) (hturn : turn.Confined) :
    Option.Rel (Twin turn.client) (together.take turn) (alone.take turn) := by
  obtain ⟨⟨same, htwin, hheld⟩, hheard⟩ := h
  have halike := htwin.perform_alike hheld hturn
  unfold take
  generalize turn.deed.perform together.state (together.held turn.client) = effect,
    turn.deed.perform alone.state (alone.held turn.client) = twin at halike
  cases halike with
  | none => exact .none
  | some halike =>
      obtain ⟨after, hstate, hafter, hresponse⟩ := halike
      refine .some ⟨⟨after, hstate, ?_⟩, ?_⟩
      · simp only [settle, if_pos]
        exact hafter
      · simp only [settle, if_pos, hheard, hresponse]

/-- A turn of another client makes no difference. -/
theorem Twin.foreign (h : Twin client together alone)
    (h' : Twin turn.client together alone') (hne : turn.client ≠ client)
    (hturn : turn.Confined) (htake : together.take turn = some after) :
    Twin client after alone := by
  obtain ⟨⟨same, htwin, hheld⟩, hheard⟩ := h
  obtain ⟨⟨_, htwin', hheld'⟩, -⟩ := h'
  obtain ⟨effect, heffect, rfl⟩ := Option.map_eq_some_iff.mp htake
  have huntouched := htwin'.untouched_perform hheld' htwin.proper hne hturn heffect
  refine ⟨⟨same, htwin.of_untouched huntouched, ?_⟩, ?_⟩
  · simp only [settle, if_neg hne.symm]
    exact hheld
  · simp only [settle, if_neg hne.symm]
    exact hheard

/-- The first turn first, if it is the client's own, and then the rest of its turns. -/
theorem run_own_cons (commons : Commons) (turn : Turn) (rest : List Turn) (client : Segment) :
    commons.run ((turn :: rest).filter (·.client = client)) =
      (commons.run ([turn].filter (·.client = client))).bind
        (·.run (rest.filter (·.client = client))) := by
  rw [← List.singleton_append, List.filter_append, run_append]

theorem run_own (commons : Commons) (turn : Turn) :
    commons.run ([turn].filter (·.client = turn.client)) = commons.take turn := by
  have hown : [turn].filter (·.client = turn.client) = [turn] := by simp
  rw [hown, run_cons]
  exact Option.bind_fun_some _

theorem run_foreign (commons : Commons) (hne : turn.client ≠ client) :
    commons.run ([turn].filter (·.client = client)) = some commons := by
  have hnone : [turn].filter (·.client = client) = [] := by simp [hne]
  rw [hnone]
  rfl

/-- In one turn a client's store stays a twin of the one in which it takes its own turns
alone. The turn comes to no end only if it comes to none for its client alone. -/
theorem Twin.take {clients : List Segment} {alone : Segment → Commons}
    (h : ∀ client ∈ clients, Twin client together (alone client))
    (hclient : turn.client ∈ clients) (hturn : turn.Confined) :
    match together.take turn with
    | some after => ∃ later : Segment → Commons, ∀ client ∈ clients,
        Twin client after (later client) ∧
          (alone client).run ([turn].filter (·.client = client)) = some (later client)
    | none => (alone turn.client).run ([turn].filter (·.client = turn.client)) = none := by
  have hown := (h _ hclient).own hturn
  generalize hending : (alone turn.client).take turn = taken at hown
  cases htake : together.take turn with
  | none =>
      rw [htake] at hown
      cases hown
      exact (run_own _ _).trans hending
  | some after =>
      rw [htake] at hown
      cases hown with
      | @some _ ending htwin =>
          refine ⟨fun client => if turn.client = client then ending else alone client, ?_⟩
          intro client member
          by_cases hsame : turn.client = client
          · subst hsame
            simp only [if_true]
            exact ⟨htwin, (run_own _ _).trans hending⟩
          · simp only [if_neg hsame]
            exact ⟨(h client member).foreign (h _ hclient) hsame hturn htake,
              run_foreign _ hsame⟩

/-- Whatever turns others take in between, a client's store stays a twin of the one in
which it takes its own turns alone. The turns come to no end only if those of some client
alone come to none. -/
theorem Twin.run {clients : List Segment} {alone : Segment → Commons}
    (h : ∀ client ∈ clients, Twin client together (alone client))
    (hturns : ∀ turn ∈ turns, turn.client ∈ clients ∧ turn.Confined) :
    match together.run turns with
    | some after => ∀ client ∈ clients, ∃ ending, Twin client after ending ∧
        (alone client).run (turns.filter (·.client = client)) = some ending
    | none => ∃ client ∈ clients,
        (alone client).run (turns.filter (·.client = client)) = none := by
  induction turns generalizing together alone with
  | nil => exact fun client member => ⟨alone client, h client member, rfl⟩
  | cons turn rest ih =>
      obtain ⟨hclient, hturn⟩ := hturns turn List.mem_cons_self
      have hstep := Twin.take h hclient hturn
      rw [run_cons]
      cases htake : together.take turn with
      | none =>
          rw [htake] at hstep
          exact ⟨turn.client, hclient, by rw [run_own_cons, hstep]; rfl⟩
      | some after =>
          rw [htake] at hstep
          obtain ⟨later, hlater⟩ := hstep
          have hrest := ih (fun client member => (hlater client member).1)
            fun other member => hturns other (List.mem_cons_of_mem _ member)
          have hown : ∀ client ∈ clients,
              (alone client).run ((turn :: rest).filter (·.client = client)) =
                (later client).run (rest.filter (·.client = client)) := by
            intro client member
            rw [run_own_cons, (hlater client member).2]
            rfl
          rw [Option.bind_some]
          cases hrun : after.run rest with
          | none =>
              rw [hrun] at hrest
              obtain ⟨client, member, hnone⟩ := hrest
              exact ⟨client, member, (hown client member).trans hnone⟩
          | some ending =>
              rw [hrun] at hrest
              intro client member
              rw [hown client member]
              exact hrest client member

end Commons

end FlatTree
