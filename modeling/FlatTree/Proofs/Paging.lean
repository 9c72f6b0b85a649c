import FlatTree.Proofs.Opening
import FlatTree.Proofs.Ownership

/-!
Listings read page by page. A listing is answered once, and its client asks it for pages while
the store goes on. Every page begins where the last one ended, so the client always has the
front of the listing, as far as so many full pages go (`Browse.progress_run`). The page that is
not full is the last one. It comes after all full pages, with no node if these are the whole
listing. What the store does in between cannot add, drop or exchange a node; it can change the
nodes themselves, but nothing that is fixed about them.
-/

namespace FlatTree

namespace Listing

variable {listing : Listing} {place : Nat}

theorem page_natCast (listing : Listing) (offset count : Nat) :
    listing.page offset count = .ok ((listing.nodes.drop offset).take count) := by
  have hbounds : ¬((offset : Int) < 0 ∨ (count : Int) < 0) := by omega
  rw [page, if_neg hbounds, Int.toNat_natCast, Int.toNat_natCast]

/-- Places from the front on, up to the first that is out of range. -/
theorem item_natCast (listing : Listing) (hplace : place < wordBound) :
    listing.item place =
      match listing.nodes[place]? with
      | some id => .ok id
      | none => .error .outOfRange := by
  have hfits : FitsWord place := by
    unfold FitsWord
    omega
  have hfront : ¬(place : Int) < 0 := by omega
  have hindex : fromEnd listing.length place = place := if_neg hfront
  rw [item, if_neg (not_not_intro hfits)]
  simp only [hindex, if_neg hfront]
  cases hnode : listing.nodes[place]? with
  | none => simp [hnode]
  | some id => simp [hnode]

theorem filterMap_range' (nodes : List NodeId) (first count : Nat) :
    (List.range' first count).filterMap (nodes[·]?) = (nodes.drop first).take count := by
  induction count generalizing first with
  | zero => simp
  | succ count ih =>
      rw [List.range'_succ]
      by_cases hfirst : first < nodes.length
      · rw [List.filterMap_cons_some (List.getElem?_eq_getElem hfirst), ih,
          List.drop_eq_getElem_cons hfirst, List.take_succ_cons]
      · rw [List.filterMap_cons_none (List.getElem?_eq_none (not_lt.mp hfirst)), ih,
          List.drop_of_length_le (by omega), List.drop_of_length_le (by omega), List.take_nil,
          List.take_nil]

/-- A slice in steps of one visits the places between its bounds, once each. -/
theorem slicePlaces_one (length : Nat) (start stop : Option Int) (first last : Nat)
    (hfirst : (start.map fun bound => max 0 (min (length : Int) (fromEnd length bound))).getD 0 =
      first)
    (hlast : (stop.map fun bound => max 0 (min (length : Int) (fromEnd length bound))).getD
      length = last) :
    slicePlaces length start stop 1 = List.range' first (last - first) := by
  have hcount : (((last : Int) - first + 1 - 1) / 1).toNat = last - first := by omega
  simp only [slicePlaces, if_pos Int.zero_lt_one, hfirst, hlast, hcount]
  rw [List.range'_eq_map_range]
  apply List.map_congr_left
  intro turn member
  omega

/-- A page is the slice of its places. -/
theorem slice_page (listing : Listing) (offset count : Nat) :
    listing.slice (some offset) (some (offset + count : Nat)) none =
      listing.page offset count := by
  have hbound : ∀ bound : Nat,
      max 0 (min (listing.length : Int) (fromEnd listing.length bound)) =
        (min listing.length bound : Nat) := by
    intro bound
    unfold fromEnd
    rw [if_neg (by omega)]
    omega
  have hplaces : slicePlaces listing.length (some offset) (some (offset + count : Nat)) 1 =
      List.range' (min listing.length offset)
        (min listing.length (offset + count) - min listing.length offset) :=
    slicePlaces_one listing.length _ _ _ _ (hbound offset) (hbound (offset + count))
  have hstep : (none : Option Int).getD 1 = 1 := rfl
  rw [page_natCast, slice, hstep]
  simp only [if_neg Int.one_ne_zero, hplaces, filterMap_range']
  apply congrArg Except.ok
  unfold length
  by_cases hoffset : offset ≤ listing.nodes.length
  · rw [min_eq_right hoffset, List.take_eq_take_iff, List.length_drop]
    omega
  · rw [List.drop_of_length_le (by omega), List.drop_of_length_le (by omega), List.take_nil,
      List.take_nil]

theorem slice_all (listing : Listing) : listing.slice none none none = .ok listing.nodes := by
  have hplaces := slicePlaces_one listing.length none none 0 listing.length rfl rfl
  have hstep : (none : Option Int).getD 1 = 1 := rfl
  rw [slice, hstep]
  simp only [if_neg Int.one_ne_zero, hplaces, filterMap_range']
  exact congrArg Except.ok (List.take_length)

end Listing

/-- A store, and a client that pages through a listing. -/
structure Browse where
  state : State
  listing : Listing
  /-- How many nodes a page may have. -/
  size : Nat
  offset : Nat := 0
  /-- The nodes of the pages so far. -/
  seen : List NodeId := []
  /-- The last page was not full, and the client asks for no more. -/
  finished : Bool := false

/-- What can happen next. -/
inductive Moment where
  /-- The store takes a step, for this or another client. -/
  | step (step : Step)
  /-- The client asks for the next page. -/
  | page

namespace Moment

def step? : Moment → Option Step
  | .step taken => some taken
  | .page => none

def asks : Moment → Bool
  | .step _ => false
  | .page => true

end Moment

namespace Browse

/-- The client goes on by as many nodes as it got. -/
def turn (browse : Browse) : Browse :=
  match browse.listing.page browse.offset browse.size with
  | .error _ => browse
  | .ok page =>
      { browse with
        offset := browse.offset + page.length
        seen := browse.seen ++ page
        finished := decide (page.length < browse.size) }

def take (browse : Browse) : Moment → Browse
  | .step step => { browse with state := browse.state.take step }
  | .page => if browse.finished then browse else browse.turn

def run (browse : Browse) (moments : List Moment) : Browse :=
  moments.foldl take browse

/-- Where the client stands when it has asked for some pages: it has the nodes that so many
full pages have room for, and has stopped if there was room left. -/
structure Progress (nodes : List NodeId) (size asked : Nat) (browse : Browse) : Prop where
  listed : browse.listing.nodes = nodes
  room : browse.size = size
  seen : browse.seen = nodes.take (asked * size)
  offset : browse.offset = browse.seen.length
  finished : browse.finished = true ↔ nodes.length < asked * size

variable {nodes : List NodeId} {size asked : Nat} {browse : Browse}

theorem progress_start (state : State) (listing : Listing) (size : Nat) :
    Progress listing.nodes size 0 { state, listing, size } where
  listed := rfl
  room := rfl
  seen := by simp
  offset := rfl
  finished := by simp

theorem Progress.step (h : Progress nodes size asked browse) (step : Step) :
    Progress nodes size asked (browse.take (.step step)) where
  listed := h.listed
  room := h.room
  seen := h.seen
  offset := h.offset
  finished := h.finished

theorem Progress.page (h : Progress nodes size asked browse) :
    Progress nodes size (asked + 1) (browse.take .page) := by
  have hnext : (asked + 1) * size = asked * size + size := Nat.succ_mul asked size
  by_cases hfinished : browse.finished = true
  · have htake : browse.take .page = browse := if_pos hfinished
    have hend := h.finished.mp hfinished
    rw [htake]
    refine ⟨h.listed, h.room, ?_, h.offset, iff_of_true hfinished (by omega)⟩
    rw [h.seen, List.take_of_length_le (by omega), List.take_of_length_le (by omega)]
  · have hmore : asked * size ≤ nodes.length := not_lt.mp (mt h.finished.mpr hfinished)
    have hoffset : browse.offset = asked * size := by
      rw [h.offset, h.seen, List.length_take]
      omega
    have htake : browse.take .page =
        { browse with
          offset := browse.offset + ((nodes.drop (asked * size)).take size).length
          seen := browse.seen ++ (nodes.drop (asked * size)).take size
          finished := decide (((nodes.drop (asked * size)).take size).length < size) } := by
      rw [take, if_neg hfinished, turn, hoffset, h.room, Listing.page_natCast, h.listed]
    rw [htake]
    refine ⟨h.listed, h.room, ?_, ?_, ?_⟩
    · rw [hnext, List.take_add, h.seen]
    · rw [List.length_append, h.offset]
    · rw [decide_eq_true_iff, List.length_take, List.length_drop]
      omega

theorem state_take (browse : Browse) (moment : Moment) :
    (browse.take moment).state =
      browse.state.follow (moment.step?.toList) := by
  cases moment with
  | step step => rfl
  | page =>
      rw [take]
      split
      · rfl
      · unfold turn
        split <;> rfl

/-- Every page the client asks for brings it a full page further, and no step of the store
takes it back. -/
theorem progress_run (h : Progress nodes size asked browse) (moments : List Moment) :
    Progress nodes size (asked + moments.countP Moment.asks) (browse.run moments) := by
  induction moments generalizing browse asked with
  | nil => exact h
  | cons moment rest ih =>
      cases moment with
      | step step => exact ih (h.step step)
      | page =>
          have hasked : (Moment.page :: rest).countP Moment.asks = 1 + rest.countP Moment.asks :=
            (List.countP_cons_of_pos rfl).trans (Nat.add_comm _ 1)
          rw [hasked, ← Nat.add_assoc]
          exact ih h.page

/-- The store goes on by its own steps. -/
theorem state_run (browse : Browse) (moments : List Moment) :
    (browse.run moments).state = browse.state.follow (moments.filterMap Moment.step?) := by
  induction moments generalizing browse with
  | nil => rfl
  | cons moment rest ih =>
      have hrun : (browse.run (moment :: rest)).state =
          ((browse.take moment).run rest).state := rfl
      rw [hrun, ih, state_take]
      cases moment with
      | step step => rfl
      | page => rfl

end Browse

namespace State

variable {state : State} {call : Call} {listing : Listing} {id : NodeId}

/-- What is listed is held by a live entry, or is the root. -/
theorem live?_of_listed (hanswer : call.answer state = .ok (.listing listing))
    (hlisted : id ∈ listing.nodes) :
    id = state.volume.root ∨ ∃ path, state.volume.table.live? path = some id := by
  have hheld : ∀ path, state.volume.live? path = some id →
      id = state.volume.root ∨ ∃ path, state.volume.table.live? path = some id := by
    intro path hlive
    unfold Volume.live? at hlive
    split at hlive
    · exact Or.inl (Option.some.inj hlive).symm
    · exact Or.inr ⟨path, hlive⟩
  obtain ⟨change, -, hplan, -⟩ := agrees_of_answer_ok hanswer
  unfold Call.plan at hplan
  cases hservice : call.service with
  | read => simp [hservice, Plan.outcome_openToRead_eq_ok] at hplan
  | write => simp [hservice, Plan.outcome_openToWrite_eq_ok] at hplan
  | openFile => simp [hservice, Plan.outcome_openToWrite_eq_ok] at hplan
  | command => simp [hservice, Query.outcome_bind_eq_ok, Query.outcome_pure] at hplan
  | lstat =>
      simp only [hservice, Plan.lstat, Query.outcome_bind_eq_ok, Plan.outcome_lookUp_eq_ok,
        Volume.live?_tidy] at hplan
      obtain ⟨found, hlive, hpure⟩ := hplan
      cases hpure
      cases List.mem_singleton.mp hlisted
      exact hheld _ hlive
  | list =>
      simp only [hservice, Plan.list, Query.outcome_bind_eq_ok, Plan.outcome_resolve_eq_ok,
        Volume.leads_tidy] at hplan
      obtain ⟨found, hleads, hrest⟩ := hplan
      obtain ⟨stop, hstop⟩ := hleads.held
      cases hmethod : call.request.method with
      | list =>
          simp only [hmethod, Query.outcome_bind_eq_ok, Plan.outcome_node_eq_ok] at hrest
          obtain ⟨directory, -, hrest⟩ := hrest
          split at hrest
          · simp only [Query.outcome_bind_eq_ok, Plan.outcome_volume_eq_ok] at hrest
            obtain ⟨listed, rfl, hpure⟩ := hrest
            cases hpure
            obtain ⟨key, -, hlive⟩ := List.mem_filterMap.mp hlisted
            have htable : state.volume.table.tidy.live? key = some id := hlive
            rw [Table.live?_tidy] at htable
            exact Or.inr ⟨key, htable⟩
          · cases hrest
      | stat | readlink =>
          simp only [hmethod] at hrest
          cases hrest
          cases List.mem_singleton.mp hlisted
          exact hheld stop hstop
      | _ =>
          simp only [hmethod] at hrest
          cases hrest

/-- A client that pages through a listing, whatever the store does between the pages. It has the
front of the listing as far as the pages reach, and it stops with the first page that the rest
of the listing does not fill, with all nodes in order. Places and slices give the same nodes.
Each of them was the root or held by an entry when the call was answered, and what is fixed
about it stays. -/
theorem pages_cover_listing (state : State) (call : Call) (listing : Listing) (size : Nat)
    (moments : List Moment) (hanswer : call.answer state = .ok (.listing listing))
    (hsize : 0 < size) :
    let answered := state.serve call
    let asked := moments.countP Moment.asks
    let after := ({ state := answered, listing, size : Browse }).run moments
    after.state = answered.follow (moments.filterMap Moment.step?) ∧
      after.seen = listing.nodes.take (asked * size) ∧
      (after.finished = true ↔ listing.nodes.length / size < asked) ∧
      (after.finished = true → after.seen = listing.nodes) ∧
      (∀ place : Nat, place < wordBound → listing.item place =
        match listing.nodes[place]? with
        | some id => .ok id
        | none => .error .outOfRange) ∧
      listing.slice none none none = .ok listing.nodes ∧
      (∀ offset count : Nat, listing.slice (some offset) (some (offset + count : Nat)) none =
        listing.page offset count) ∧
      ∀ id ∈ listing.nodes,
        (id = state.volume.root ∨ ∃ path, state.volume.table.live? path = some id) ∧
          (id.index < state.heap.size → (after.state.node id).fixed = (state.node id).fixed) := by
  intro answered asked after
  have hprogress : Browse.Progress listing.nodes size asked after := by
    have hrun := Browse.progress_run (Browse.progress_start answered listing size) moments
    rwa [Nat.zero_add] at hrun
  have hstate := Browse.state_run { state := answered, listing, size } moments
  refine ⟨hstate, hprogress.seen, ?_, fun hfinished => ?_, fun place => listing.item_natCast,
    listing.slice_all, listing.slice_page, fun id hlisted => ⟨live?_of_listed hanswer hlisted, ?_⟩⟩
  · rw [hprogress.finished, Nat.div_lt_iff_lt_mul hsize]
  · have hend := hprogress.finished.mp hfinished
    rw [hprogress.seen, List.take_of_length_le (by omega)]
  · intro hmade
    rw [hstate]
    exact (fixed_follow (.call call :: moments.filterMap Moment.step?) hmade).2

/-- Two files that pages of one node fill exactly. Before the second page the first file is
removed, and the directory renamed with the other. -/
theorem listing_paged_beside_rename :
    let made : List Call :=
      [⟨.command, { method := .mkdir, path := ['/', 'd'] }⟩,
        ⟨.write, { method := .put, path := ['/', 'd', '/', 'a'] }⟩,
        ⟨.write, { method := .put, path := ['/', 'd', '/', 'b'] }⟩]
    let listed : Call := ⟨.list, { method := .list, path := ['/', 'd'] }⟩
    let removed : Call := ⟨.command, { method := .remove, path := ['/', 'd', '/', 'a'] }⟩
    let renamed : Call :=
      ⟨.command, { method := .rename, path := ['/', 'd'], target := ['/', 'e'] }⟩
    let state := (State.start {}).run made
    let browse : Browse := { state := state.serve listed, listing := ⟨[⟨2⟩, ⟨3⟩]⟩, size := 1 }
    let after := browse.run
      [.page, .step (.call removed), .step (.call renamed), .page, .page]
    listed.answer state = .ok (.listing ⟨[⟨2⟩, ⟨3⟩]⟩) ∧ after.finished = true ∧
      after.seen = [⟨2⟩, ⟨3⟩] ∧ browse.listing.item 1 = .ok ⟨3⟩ ∧
      (after.state.node ⟨3⟩).fixed = (state.node ⟨3⟩).fixed ∧
      (after.state.node ⟨3⟩).path = ['/', 'e', '/', 'b'] := by
  intro made listed removed renamed state browse after
  have hanswer : listed.answer state = .ok (.listing ⟨[⟨2⟩, ⟨3⟩]⟩) := rfl
  obtain ⟨-, -, hfinished, hseen, hitem, -, -, hlisted⟩ :=
    pages_cover_listing state listed ⟨[⟨2⟩, ⟨3⟩]⟩ 1
      [.page, .step (.call removed), .step (.call renamed), .page, .page] hanswer (by decide)
  have hstopped : after.finished = true := hfinished.mpr (by decide)
  have hkept := (hlisted ⟨3⟩ (by decide)).2 (by decide +kernel)
  exact ⟨hanswer, hstopped, hseen hstopped, hitem 1 (by decide), hkept, by decide +kernel⟩

end State

end FlatTree
