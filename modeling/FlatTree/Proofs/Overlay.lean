import Mathlib.Data.List.Pairwise
import Mathlib.Data.List.Perm.Basic
import FlatTree.Proofs.Hollow

/-!
The bytes of a file after writes and cuts. A content is read as a tape with zeros after its
end (`Bytes.byteAt`). Then a write changes the positions that it covers and no others, and a
cut makes zeros of all positions from its size on, whatever the gaps, the overlaps and the
lengths are. So each byte in the end is that of the last edit that touches its position, and
writes that cover no position in common may be done in any order.
-/

namespace FlatTree

namespace Bytes

variable {content other data : Bytes} {offset size position : Nat}

/-- The byte at a position, zero after the end. -/
def byteAt (content : Bytes) (position : Nat) : UInt8 :=
  content[position]?.getD 0

theorem getElem?_of_lt (h : position < content.length) :
    content[position]? = some (content.byteAt position) := by
  unfold byteAt
  rw [List.getElem?_eq_getElem h, Option.getD_some]

theorem byteAt_of_le (h : content.length ≤ position) : content.byteAt position = 0 := by
  unfold byteAt
  rw [List.getElem?_eq_none h, Option.getD_none]

/-- A content is its length and its bytes. -/
theorem ext_byteAt (hlength : content.length = other.length)
    (h : ∀ position, content.byteAt position = other.byteAt position) : content = other := by
  apply List.ext_getElem?
  intro position
  by_cases hposition : position < content.length
  · rw [getElem?_of_lt hposition, getElem?_of_lt (hlength ▸ hposition), h]
  · rw [List.getElem?_eq_none (by omega), List.getElem?_eq_none (by omega)]

theorem byteAt_append (front back : Bytes) (position : Nat) :
    byteAt (front ++ back) position =
      if position < front.length then front.byteAt position
      else back.byteAt (position - front.length) := by
  unfold byteAt
  rw [List.getElem?_append]
  split <;> rfl

theorem byteAt_take (content : Bytes) (count position : Nat) :
    byteAt (content.take count) position =
      if position < count then content.byteAt position else 0 := by
  unfold byteAt
  rw [List.getElem?_take]
  split <;> rfl

theorem byteAt_padTo (content : Bytes) (length position : Nat) :
    (content.padTo length).byteAt position = content.byteAt position := by
  rw [padTo, byteAt_append]
  split
  · rfl
  · rename_i hend
    rw [byteAt_of_le (not_lt.mp hend)]
    unfold byteAt
    rw [List.getElem?_replicate]
    split <;> rfl

theorem byteAt_drop (content : Bytes) (count position : Nat) :
    byteAt (content.drop count) position = content.byteAt (count + position) := by
  unfold byteAt
  rw [List.getElem?_drop]

/-- A write changes the bytes that it covers. -/
theorem byteAt_write (content : Bytes) (offset : Nat) (data : Bytes) (position : Nat) :
    (content.write offset data).byteAt position =
      if offset ≤ position ∧ position < offset + data.length then data.byteAt (position - offset)
      else content.byteAt position := by
  have hfront : ((content.padTo (offset + data.length)).take offset).length = offset := by
    rw [List.length_take, length_padTo]
    omega
  rw [write, byteAt_append, byteAt_append, byteAt_take, byteAt_drop, byteAt_padTo, byteAt_padTo,
    List.length_append, hfront]
  by_cases hbefore : position < offset
  · rw [if_pos (by omega), if_pos hbefore, if_pos hbefore, if_neg (by omega)]
  · by_cases hcovered : position < offset + data.length
    · rw [if_pos hcovered, if_neg hbefore, if_pos (by omega)]
    · rw [if_neg hcovered, if_neg (by omega), Nat.add_sub_cancel' (not_lt.mp hcovered)]

/-- A cut leaves the bytes before the size. -/
theorem byteAt_resize (content : Bytes) (size position : Nat) :
    (content.resize size).byteAt position =
      if position < size then content.byteAt position else 0 := by
  rw [resize, byteAt_take, byteAt_padTo]

end Bytes

namespace Edit

/-- A write covers the positions of its bytes. -/
def Covers (position : Nat) : Edit → Prop
  | .write offset data => offset ≤ position ∧ position < offset + data.length
  | .resize _ => False

/-- A cut takes out what is from its size on. -/
def Cuts (position : Nat) : Edit → Prop
  | .write _ _ => False
  | .resize size => size ≤ position

def Touches (position : Nat) (edit : Edit) : Prop :=
  edit.Covers position ∨ edit.Cuts position

/-- The edits cover no position in common. -/
def Apart (first second : Edit) : Prop :=
  ∀ position, ¬(first.Covers position ∧ second.Covers position)

instance : Std.Symm Apart where
  symm _ _ h position hboth := h position hboth.symm

/-- The write is the last that covers the position, and no cut takes it out afterwards. -/
def LastWrite (edits : List Edit) (position offset : Nat) (data : Bytes) : Prop :=
  ∃ earlier later, edits = earlier ++ .write offset data :: later ∧
    (Edit.write offset data).Covers position ∧ ∀ edit ∈ later, ¬edit.Touches position

/-- How many bytes a content of some length has after the edit. -/
def size (length : Nat) : Edit → Nat
  | .write offset data => max length (offset + data.length)
  | .resize size => size

variable {first second edit : Edit} {content : Bytes} {position : Nat} {edits : List Edit}

theorem length_apply (edit : Edit) (content : Bytes) :
    (edit.apply content).length = edit.size content.length := by
  cases edit with
  | write offset data => exact Bytes.length_write content offset data
  | resize size => exact Bytes.length_resize content size

theorem byteAt_apply_of_not_touches (h : ¬edit.Touches position) :
    (edit.apply content).byteAt position = content.byteAt position := by
  rw [Touches, not_or] at h
  cases edit with
  | write offset data => exact (Bytes.byteAt_write ..).trans (if_neg h.1)
  | resize size => exact (Bytes.byteAt_resize ..).trans (if_pos (not_le.mp h.2))

theorem byteAt_apply_of_cuts (h : edit.Cuts position) :
    (edit.apply content).byteAt position = 0 := by
  cases edit with
  | write offset data => exact h.elim
  | resize size => exact (Bytes.byteAt_resize ..).trans (if_neg (not_lt.mpr h))

/-- Edits that do not touch a position leave the byte there. -/
theorem byteAt_replay_of_not_touches (h : ∀ edit ∈ edits, ¬edit.Touches position) :
    (content.replay edits).byteAt position = content.byteAt position := by
  induction edits generalizing content with
  | nil => rfl
  | cons edit rest ih =>
      have hrest : ((edit.apply content).replay rest).byteAt position =
          (edit.apply content).byteAt position :=
        ih fun other member => h other (List.mem_cons_of_mem edit member)
      exact hrest.trans (byteAt_apply_of_not_touches (h edit List.mem_cons_self))

/-- The last edit that touches a position says what is there. -/
theorem byteAt_replay_split {earlier later : List Edit}
    (hlater : ∀ other ∈ later, ¬other.Touches position) :
    (content.replay (earlier ++ edit :: later)).byteAt position =
      (edit.apply (content.replay earlier)).byteAt position := by
  rw [Bytes.replay_append]
  exact byteAt_replay_of_not_touches hlater

/-- No edit touches a position, or one is the last to do so. -/
theorem exists_last_touch (edits : List Edit) (position : Nat) :
    (∀ edit ∈ edits, ¬edit.Touches position) ∨
      ∃ earlier edit later, edits = earlier ++ edit :: later ∧ edit.Touches position ∧
        ∀ other ∈ later, ¬other.Touches position := by
  induction edits with
  | nil => exact Or.inl (by simp)
  | cons edit rest ih =>
      rcases ih with hnone | ⟨earlier, last, later, rfl, hlast, hlater⟩
      · by_cases htouches : edit.Touches position
        · exact Or.inr ⟨[], edit, rest, rfl, htouches, hnone⟩
        · exact Or.inl (List.forall_mem_cons.mpr ⟨htouches, hnone⟩)
      · exact Or.inr ⟨edit :: earlier, last, later, rfl, hlast, hlater⟩

/-- Writes that are apart may change places. -/
theorem apply_comm (hfirst : first.Writes) (hsecond : second.Writes)
    (h : first.Apart second) (content : Bytes) :
    second.apply (first.apply content) = first.apply (second.apply content) := by
  cases first with
  | resize size => exact hfirst.elim
  | write offset data =>
      cases second with
      | resize size => exact hsecond.elim
      | write place more =>
          refine Bytes.ext_byteAt ?_ fun position => ?_
          · simp only [length_apply, size]
            omega
          · have hapart := h position
            unfold Covers at hapart
            simp only [apply, Bytes.byteAt_write]
            split
            · rename_i hmore
              rw [if_neg fun hdata => hapart ⟨hdata, hmore⟩]
            · rfl

/-- Writes that are apart give one content in any order. -/
theorem replay_perm {others : List Edit} (hperm : edits.Perm others)
    (hwrites : ∀ edit ∈ edits, edit.Writes) (hapart : edits.Pairwise Apart)
    (content : Bytes) : content.replay edits = content.replay others := by
  have hcomm : ∀ first ∈ edits, ∀ second ∈ edits, ∀ content : Bytes,
      second.apply (first.apply content) = first.apply (second.apply content) := by
    intro first hfirst second hsecond content
    by_cases hsame : first = second
    · rw [hsame]
    · exact apply_comm (hwrites first hfirst) (hwrites second hsecond)
        (hapart.forall hfirst hsecond hsame) content
  exact hperm.foldl_eq' hcomm content

end Edit

/-- The final bytes of a content after some edits. At each position there is the byte of the
last write that covers it if no cut took that out, the first byte if no edit touched it, and
zero otherwise. -/
structure Bytes.Overlaid (initial : Bytes) (edits : List Edit) (final : Bytes) : Prop where
  written : ∀ position offset data, position < final.length →
    Edit.LastWrite edits position offset data → final[position]? = data[position - offset]?
  kept : ∀ position, position < final.length → position < initial.length →
    (∀ edit ∈ edits, ¬edit.Touches position) → final[position]? = initial[position]?
  zero : ∀ position, position < final.length →
    (∀ offset data, ¬Edit.LastWrite edits position offset data) →
      ¬(position < initial.length ∧ ∀ edit ∈ edits, ¬edit.Touches position) →
        final[position]? = some 0

theorem Bytes.overlaid_replay (content : Bytes) (edits : List Edit) :
    content.Overlaid edits (content.replay edits) where
  written position offset data hposition hlast := by
    obtain ⟨earlier, later, rfl, hcovers, hlater⟩ := hlast
    have hdata : position - offset < data.length := by
      unfold Edit.Covers at hcovers
      omega
    rw [getElem?_of_lt hposition, getElem?_of_lt hdata, Edit.byteAt_replay_split hlater]
    exact congrArg some ((byteAt_write ..).trans (if_pos hcovers))
  kept position hposition hinitial hnone := by
    rw [getElem?_of_lt hposition, getElem?_of_lt hinitial,
      Edit.byteAt_replay_of_not_touches hnone]
  zero position hposition hwritten hkept := by
    rw [getElem?_of_lt hposition, Option.some.injEq]
    rcases Edit.exists_last_touch edits position with
      hnone | ⟨earlier, edit, later, rfl, htouches, hlater⟩
    · rw [Edit.byteAt_replay_of_not_touches hnone]
      exact byteAt_of_le (not_lt.mp fun hinitial => hkept ⟨hinitial, hnone⟩)
    · rw [Edit.byteAt_replay_split hlater]
      rcases htouches with hcovers | hcuts
      · cases edit with
        | write offset data =>
            exact absurd ⟨earlier, later, rfl, hcovers, hlater⟩ (hwritten offset data)
        | resize size => exact hcovers.elim
      · exact Edit.byteAt_apply_of_cuts hcuts

/-! ### Edits of a file -/

namespace Edit

/-- The work that makes the edit. -/
def work : Edit → Work
  | .write offset data => .write data offset
  | .resize size => .truncate size

def step (id : NodeId) (edit : Edit) : Step := .work id edit.work

/-- Why a regular file refuses the edit, if it does: its delay cannot be slept for, or the
content cannot grow by so many bytes. -/
def fault? (node : Node) : Edit → Option Fault
  | .write offset data =>
      (node.delay.fault? data.length).or
        (Node.growthFault? (offset + data.length - node.size))
  | .resize size => Node.growthFault? (size - node.size)

variable {node : Node} {edit : Edit}

theorem edit?_work (edit : Edit) : edit.work.edit? = some edit := by
  cases edit with
  | write offset data => simp [work, Work.edit?]
  | resize size => simp [work, Work.edit?]

/-- What the work makes of a regular file. -/
theorem result_work (edit : Edit) (hfile : node.isFile = true) :
    edit.work.result node =
      match edit.fault? node with
      | some fault => .error fault
      | none => .ok { node with content := edit.apply node.content } := by
  cases edit with
  | write offset data =>
      have hnegative : ¬(offset : Int) < 0 := not_lt.mpr (Int.natCast_nonneg offset)
      change node.writeAt data offset = _
      unfold Node.writeAt
      rw [if_neg hnegative, Int.toNat_natCast]
      simp only [fault?]
      cases node.delay.fault? data.length with
      | some fault => rfl
      | none => cases Node.growthFault? (offset + data.length - node.size) <;> rfl
  | resize size =>
      have hnegative : ¬(size : Int) < 0 := not_lt.mpr (Int.natCast_nonneg size)
      simp only [Node.isFile, Bool.and_eq_true, Bool.not_eq_true'] at hfile
      exact Node.truncate_of_file hnegative hfile.1 hfile.2

/-- An edit is refused for too much growth, and a write also for its delay. -/
theorem fault?_eq_none_iff (node : Node) (edit : Edit) : edit.fault? node = none ↔
    edit.size node.size - node.size < 2 ^ 63 - 33 ∧
      ∀ offset data, edit = .write offset data → node.delay.fault? data.length = none := by
  have hgrowth : ∀ count, Node.growthFault? count = none ↔ count < 2 ^ 63 - 33 := by
    intro count
    rcases Node.growthFault?_cases count with ⟨fault, hfault, -, -, hlarge⟩ | ⟨hnone, hfits⟩
    · rw [hfault]
      exact iff_of_false (by simp) (not_lt.mpr hlarge)
    · exact iff_of_true hnone hfits
  cases edit with
  | write offset data =>
      have hcount : max node.size (offset + data.length) - node.size =
          offset + data.length - node.size := by omega
      simp only [fault?, size, Option.or_eq_none_iff, hgrowth, hcount, write.injEq, and_imp,
        forall_eq', forall_apply_eq_imp_iff]
      exact and_comm
  | resize size => simp [fault?, Edit.size, hgrowth]

/-- A write that is not refused is not refused on a longer content either. -/
theorem fault?_of_longer {content : Bytes} (hwrites : edit.Writes)
    (hlength : node.content.length ≤ content.length) (h : edit.fault? node = none) :
    edit.fault? { node with content } = none := by
  rw [fault?_eq_none_iff] at h ⊢
  refine ⟨?_, h.2⟩
  have hgrowth := h.1
  unfold Node.size at hgrowth ⊢
  cases edit with
  | resize size => exact hwrites.elim
  | write offset data =>
      simp only [size] at hgrowth ⊢
      omega

end Edit

namespace State

variable {state : State} {id : NodeId} {edit : Edit} {edits : List Edit}

/-- An edit that a regular file refuses leaves all as it is; any other gives the file its
new content. -/
theorem take_edit (hfile : (state.node id).isFile = true) (edit : Edit) :
    match edit.fault? (state.node id) with
    | some fault => edit.work.answer id state = .error (.fault fault) ∧
        state.take (edit.step id) = state
    | none => edit.work.answer id state = .ok () ∧
        state.take (edit.step id) = state.commit
          (.rewrite id { state.node id with content := edit.apply (state.node id).content }) := by
  have hresult := edit.result_work hfile
  cases edit with
  | write offset data =>
      change (state.heap.get id).writeAt data offset = _ at hresult
      simp only [Work.answer, Edit.work, Edit.step, take, Work.act, Act.bind_run,
        Transfer.writeAt_run, hresult]
      cases (Edit.write offset data).fault? (state.node id) with
      | some fault => exact ⟨rfl, rfl⟩
      | none => exact ⟨rfl, rfl⟩
  | resize size =>
      change (state.heap.get id).truncate size = _ at hresult
      simp only [Work.answer, Edit.work, Edit.step, take, Work.act, Transfer.truncate_run,
        hresult]
      cases (Edit.resize size).fault? (state.node id) with
      | some fault => exact ⟨rfl, rfl⟩
      | none => exact ⟨rfl, rfl⟩

/-- An edit that is not refused changes nothing of the file but its content. -/
theorem node_take_edit (hfile : (state.node id).isFile = true)
    (hfault : edit.fault? (state.node id) = none) :
    (state.take (edit.step id)).node id =
      { state.node id with content := edit.apply (state.node id).content } := by
  have htake := take_edit hfile edit
  rw [hfault] at htake
  unfold node at htake ⊢
  rw [htake.2, get_rewrite, if_pos rfl]

theorem size_take_edit (hfile : (state.node id).isFile = true)
    (hfault : edit.fault? (state.node id) = none) :
    ((state.take (edit.step id)).node id).size = edit.size (state.node id).size := by
  rw [node_take_edit hfile hfault]
  exact edit.length_apply (state.node id).content

theorem edit?_step (hfile : (state.node id).isFile = true) (edit : Edit) :
    (edit.step id).edit? state id =
      match edit.fault? (state.node id) with
      | some _ => none
      | none => some edit := by
  have htake := take_edit hfile edit
  simp only [Edit.step, Step.edit?, edit.edit?_work]
  cases hfault : edit.fault? (state.node id) with
  | some fault =>
      rw [hfault] at htake
      simp [htake.1, Except.isOk, Except.toBool]
  | none =>
      rw [hfault] at htake
      simp [htake.1, Except.isOk, Except.toBool]

/-- Edits change nothing of a regular file but its content. -/
theorem follow_edits (hfile : (state.node id).isFile = true) (edits : List Edit) :
    ∃ content, (state.follow (edits.map (Edit.step id))).node id =
      { state.node id with content } := by
  induction edits generalizing state with
  | nil => exact ⟨(state.node id).content, rfl⟩
  | cons edit rest ih =>
      rw [List.map_cons, follow_cons]
      cases hfault : edit.fault? (state.node id) with
      | some fault =>
          have htake := take_edit hfile edit
          rw [hfault] at htake
          rw [htake.2]
          exact ih hfile
      | none =>
          have hnode := node_take_edit hfile hfault
          have hafter : ((state.take (edit.step id)).node id).isFile = true := by
            rw [hnode]
            exact hfile
          obtain ⟨content, hcontent⟩ := ih hafter
          exact ⟨content, by rw [hcontent, hnode]⟩

theorem isFile_follow_edits (hfile : (state.node id).isFile = true) (edits : List Edit) :
    ((state.follow (edits.map (Edit.step id))).node id).isFile = true := by
  obtain ⟨content, hcontent⟩ := follow_edits hfile edits
  rw [hcontent]
  exact hfile

/-- When no edit is refused, all of them are made. -/
theorem edits_of_answered (hfile : (state.node id).isFile = true)
    (h : ∀ earlier edit later, edits = earlier ++ edit :: later →
      edit.fault? ((state.follow (earlier.map (Edit.step id))).node id) = none) :
    state.edits id (edits.map (Edit.step id)) = edits := by
  induction edits generalizing state with
  | nil => rfl
  | cons edit rest ih =>
      have hfirst : edit.fault? (state.node id) = none := h [] edit rest rfl
      have hafter : ((state.take (edit.step id)).node id).isFile = true :=
        isFile_follow_edits hfile [edit]
      rw [List.map_cons, State.edits, edit?_step hfile, hfirst,
        ih hafter fun earlier other later hrest =>
          h (edit :: earlier) other later (by rw [hrest]; rfl)]
      rfl

/-- Writes of which none would be refused at first are all made. -/
theorem edits_of_writes (hfile : (state.node id).isFile = true)
    (hwrites : ∀ edit ∈ edits, edit.Writes)
    (h : ∀ edit ∈ edits, edit.fault? (state.node id) = none) :
    state.edits id (edits.map (Edit.step id)) = edits := by
  induction edits generalizing state with
  | nil => rfl
  | cons edit rest ih =>
      have hfirst := h edit List.mem_cons_self
      have hafter : ((state.take (edit.step id)).node id).isFile = true :=
        isFile_follow_edits hfile [edit]
      have hrest : ∀ other ∈ rest,
          other.fault? ((state.take (edit.step id)).node id) = none := by
        intro other member
        rw [node_take_edit hfile hfirst]
        refine Edit.fault?_of_longer (hwrites other (List.mem_cons_of_mem edit member)) ?_
          (h other (List.mem_cons_of_mem edit member))
        rw [Edit.length_apply]
        have hedit := hwrites edit List.mem_cons_self
        cases edit with
        | write offset data => exact Nat.le_max_left _ _
        | resize size => exact hedit.elim
      rw [List.map_cons, State.edits, edit?_step hfile, hfirst,
        ih hafter (fun other member => hwrites other (List.mem_cons_of_mem edit member)) hrest]
      rfl

theorem follow_edits_append (state : State) (id : NodeId) (earlier : List Edit) (edit : Edit) :
    state.follow ((earlier ++ [edit]).map (Edit.step id)) =
      (state.follow (earlier.map (Edit.step id))).take (edit.step id) := by
  rw [List.map_append, follow, List.foldl_append]
  rfl

/-- What a write to a regular file answers, and what it leaves. -/
theorem writeAt_of_file (hfile : (state.node id).isFile = true) (offset : Nat) (data : Bytes) :
    let next := state.take ((Edit.write offset data).step id)
    match (Edit.write offset data).fault? (state.node id) with
    | some fault =>
        Transfer.writeAt id data offset state = .error (.fault fault) state ∧ next = state
    | none => Transfer.writeAt id data offset state = .ok data.length next ∧
        (next.node id).size = max (state.node id).size (offset + data.length) := by
  intro next
  have hresult := (Edit.write offset data).result_work hfile
  change (state.heap.get id).writeAt data offset = _ at hresult
  have htake := take_edit hfile (.write offset data)
  rw [Transfer.writeAt_run, hresult]
  cases hfault : (Edit.write offset data).fault? (state.node id) with
  | some fault =>
      rw [hfault] at htake
      exact ⟨rfl, htake.2⟩
  | none =>
      rw [hfault] at htake
      exact ⟨congrArg (EStateM.Result.ok data.length) htake.2.symm,
        size_take_edit hfile hfault⟩

/-- What a cut of a regular file answers, and what it leaves. -/
theorem truncate_of_file (hfile : (state.node id).isFile = true) (size : Nat) :
    let next := state.take ((Edit.resize size).step id)
    match (Edit.resize size).fault? (state.node id) with
    | some fault =>
        Transfer.truncate id size state = .error (.fault fault) state ∧ next = state
    | none => Transfer.truncate id size state = .ok () next ∧ (next.node id).size = size := by
  intro next
  have hresult := (Edit.resize size).result_work hfile
  change (state.heap.get id).truncate size = _ at hresult
  have htake := take_edit hfile (.resize size)
  rw [Transfer.truncate_run, hresult]
  cases hfault : (Edit.resize size).fault? (state.node id) with
  | some fault =>
      rw [hfault] at htake
      exact ⟨rfl, htake.2⟩
  | none =>
      rw [hfault] at htake
      exact ⟨congrArg (EStateM.Result.ok ()) htake.2.symm, size_take_edit hfile hfault⟩

/-- The bytes of a regular file after writes and cuts, from any state. An edit that is
refused, for a delay that cannot be slept for or a growth that is too large, changes nothing.
Any other write answers with how many bytes it wrote and leaves the greater of the old size and
its own end, and any other cut leaves just its size. Over any sequence of edits each final
byte is that of the last write made that covers its position, unless a cut took it out after
that; it is the first byte if no edit touched it, and zero otherwise. Without a refusal the
edits made are all. So writes that are apart give one content in any two orders in which they
are all made, and if none of them would be refused at first, they are all made in every
order. -/
theorem overlay_of_edits (state : State) (id : NodeId)
    (hfile : (state.node id).isFile = true) :
    let after := fun edits : List Edit => state.follow (edits.map (Edit.step id))
    let made := fun edits : List Edit => state.edits id (edits.map (Edit.step id))
    let content := fun edits : List Edit => ((after edits).node id).content
    (∀ (node : Node) (edit : Edit), edit.fault? node = none ↔
        edit.size node.size - node.size < 2 ^ 63 - 33 ∧
          ∀ offset data, edit = .write offset data → node.delay.fault? data.length = none) ∧
      (∀ (earlier : List Edit) (offset : Nat) (data : Bytes),
        let before := after earlier
        let next := after (earlier ++ [.write offset data])
        match (Edit.write offset data).fault? (before.node id) with
        | some fault =>
            Transfer.writeAt id data offset before = .error (.fault fault) before ∧
              next = before
        | none => Transfer.writeAt id data offset before = .ok data.length next ∧
            (next.node id).size = max (before.node id).size (offset + data.length)) ∧
      (∀ (earlier : List Edit) (size : Nat),
        let before := after earlier
        let next := after (earlier ++ [.resize size])
        match (Edit.resize size).fault? (before.node id) with
        | some fault => Transfer.truncate id size before = .error (.fault fault) before ∧
            next = before
        | none => Transfer.truncate id size before = .ok () next ∧
            (next.node id).size = size) ∧
      (∀ edits, (state.node id).content.Overlaid (made edits) (content edits)) ∧
      (∀ edits, (∀ earlier edit later, edits = earlier ++ edit :: later →
          edit.fault? ((after earlier).node id) = none) → made edits = edits) ∧
      ∀ edits others : List Edit, edits.Perm others → (∀ edit ∈ edits, edit.Writes) →
        edits.Pairwise Edit.Apart →
          (made edits = edits → made others = others → content edits = content others) ∧
            ((∀ edit ∈ edits, edit.fault? (state.node id) = none) →
              made edits = edits ∧ made others = others) := by
  intro after made content
  have hcontent : ∀ edits, content edits = (state.node id).content.replay (made edits) :=
    fun edits => content_follow state (edits.map (Edit.step id)) id
  refine ⟨Edit.fault?_eq_none_iff, ?_, ?_, ?_, fun edits => edits_of_answered hfile, ?_⟩
  · intro earlier offset data before next
    have hnext : next = before.take ((Edit.write offset data).step id) :=
      follow_edits_append state id earlier _
    rw [hnext]
    exact writeAt_of_file (isFile_follow_edits hfile earlier) offset data
  · intro earlier size before next
    have hnext : next = before.take ((Edit.resize size).step id) :=
      follow_edits_append state id earlier _
    rw [hnext]
    exact truncate_of_file (isFile_follow_edits hfile earlier) size
  · intro edits
    rw [hcontent]
    exact Bytes.overlaid_replay _ _
  · intro edits others hperm hwrites hapart
    constructor
    · intro hedits hothers
      rw [hcontent, hcontent, hedits, hothers]
      exact Edit.replay_perm hperm hwrites hapart _
    · intro hnone
      refine ⟨edits_of_writes hfile hwrites hnone, edits_of_writes hfile ?_ ?_⟩
      · exact fun edit member => hwrites edit (hperm.mem_iff.mpr member)
      · exact fun edit member => hnone edit (hperm.mem_iff.mpr member)

/-- Two writes to a new file that cover different bytes give one content in either order, and
of the second write all stays that a cut leaves. -/
theorem overlay_of_two_writes :
    let state := (State.start {}).run [fileMade]
    let content := fun edits : List Edit =>
      ((state.follow (edits.map (Edit.step ⟨1⟩))).node ⟨1⟩).content
    content [.write 0 [104], .write 2 [105, 33]] = content [.write 2 [105, 33], .write 0 [104]] ∧
      (content [.write 0 [104], .write 2 [105, 33], .resize 3])[2]? = some 105 := by
  intro state content
  have hfile : (state.node ⟨1⟩).isFile = true := by decide +kernel
  obtain ⟨-, -, -, hbytes, -, hperm⟩ := overlay_of_edits state ⟨1⟩ hfile
  have hapart : [Edit.write 0 [104], .write 2 [105, 33]].Pairwise Edit.Apart := by
    refine List.pairwise_pair.mpr fun position hboth => ?_
    unfold Edit.Covers at hboth
    simp only [List.length_cons, List.length_nil] at hboth
    omega
  have hwrites : ∀ edit ∈ [Edit.write 0 [104], .write 2 [105, 33]], edit.Writes := by
    simp [Edit.Writes]
  obtain ⟨hsame, hall⟩ :=
    hperm _ [.write 2 [105, 33], .write 0 [104]] (List.Perm.swap ..) hwrites hapart
  obtain ⟨hfirst, hsecond⟩ := hall (by decide +kernel)
  refine ⟨hsame hfirst hsecond, ?_⟩
  have hmade : state.edits ⟨1⟩
      ([Edit.write 0 [104], .write 2 [105, 33], .resize 3].map (Edit.step ⟨1⟩)) =
        [.write 0 [104], .write 2 [105, 33], .resize 3] := by decide +kernel
  have hoverlaid := hbytes [.write 0 [104], .write 2 [105, 33], .resize 3]
  simp only [hmade] at hoverlaid
  refine hoverlaid.written 2 2 [105, 33] (by decide +kernel)
    ⟨[.write 0 [104]], [.resize 3], rfl, by simp [Edit.Covers], ?_⟩
  simp [Edit.Touches, Edit.Covers, Edit.Cuts]

/-- A new file takes no byte so far out that the content would be longer than a word can count,
and none at all with a delay that is no number. -/
theorem write_refused_to_new_file :
    let state := (State.start {}).run [fileMade]
    let endless := (State.start { writeDelay := some (.real .nan) }).run [fileMade]
    (state.node ⟨1⟩).isFile = true ∧ (state.node ⟨1⟩).content = [] ∧
      Transfer.writeAt ⟨1⟩ [120] wordBound state =
        .error (.fault .growthUnaddressable) state ∧
      (endless.node ⟨1⟩).isFile = true ∧ (endless.node ⟨1⟩).content = [] ∧
      Transfer.writeAt ⟨1⟩ [120] 0 endless = .error (.fault .spanNotANumber) endless := by
  intro state endless
  have hfar : (state.heap.get ⟨1⟩).writeAt [120] wordBound = .error .growthUnaddressable := by
    decide +kernel
  have hdelayed : (endless.heap.get ⟨1⟩).writeAt [120] 0 = .error .spanNotANumber := by
    decide +kernel
  refine ⟨by decide +kernel, by decide +kernel, ?_, by decide +kernel, by decide +kernel, ?_⟩
  · rw [Transfer.writeAt_run, hfar]
  · rw [Transfer.writeAt_run, hdelayed]

end State

end FlatTree
