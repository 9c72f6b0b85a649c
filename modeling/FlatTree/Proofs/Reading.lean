import FlatTree.Proofs.Course

/-!
Reading to the end. A chunk is read as fresh bytes or into a buffer, and the two ways are
written apart, but they give the same bytes, and neither touches the store
(`Reader.draw_run`). Chunks that follow each other join, and a short chunk ends where the
content ends. So a reader that goes on by what it got, until it gets less than it asked for,
has all bytes from its first offset on, each once (`drains_iff`).
-/

namespace FlatTree

namespace Bytes

variable {content buffer chunk : Bytes} {offset size : Nat}

theorem length_read (content : Bytes) (offset size : Nat) :
    (content.read offset size).length = min size (content.length - offset) := by
  rw [read, List.length_take, List.length_drop]

theorem length_read_le (content : Bytes) (offset size : Nat) :
    (content.read offset size).length ≤ size :=
  List.length_take_le size _

theorem read_of_length_le (h : content.length ≤ offset) : content.read offset size = [] := by
  rw [read, List.drop_of_length_le h, List.take_nil]

/-- Two reads in a row are one. -/
theorem read_add (content : Bytes) (offset first second : Nat) :
    content.read offset (first + second) =
      content.read offset first ++ content.read (offset + first) second := by
  unfold read
  rw [List.take_add, List.drop_drop]

/-- Short of what was asked for is just a read over the end. -/
theorem length_read_lt_iff (hsize : 0 < size) :
    (content.read offset size).length < size ↔ content.length < offset + size := by
  rw [length_read]
  omega

theorem length_read_of_le (h : offset + size ≤ content.length) :
    (content.read offset size).length = size := by
  rw [length_read]
  omega

/-- A read over the end leaves nothing. -/
theorem read_eq_drop (h : content.length ≤ offset + size) :
    content.read offset size = content.drop offset := by
  apply List.take_of_length_le
  rw [List.length_drop]
  omega

theorem read_append_drop (content : Bytes) (offset size : Nat) :
    content.read offset size ++ content.drop (offset + size) = content.drop offset := by
  rw [read, ← List.drop_drop, List.take_append_drop]

theorem length_fill (h : chunk.length ≤ buffer.length) :
    (buffer.fill chunk).length = buffer.length := by
  rw [fill, List.length_append, List.length_drop]
  omega

theorem take_fill (buffer chunk : Bytes) : (buffer.fill chunk).take chunk.length = chunk :=
  List.take_left

theorem drop_fill (buffer chunk : Bytes) :
    (buffer.fill chunk).drop chunk.length = buffer.drop chunk.length :=
  List.drop_left

end Bytes

namespace Node

theorem readAt_natCast (node : Node) (size offset : Nat) :
    node.readAt size offset = .ok (node.content.read offset size) := by
  have hoffset : ¬(offset : Int) < 0 := by omega
  have hsize : ¬(size : Int) < 0 := by omega
  rw [readAt, if_neg hoffset, if_neg hsize, Int.toNat_natCast, Int.toNat_natCast]

/-- At the end and past it, where the buffer is left alone, there is nothing to fill it with. -/
theorem readInto_natCast (node : Node) (buffer : Bytes) (offset : Nat) :
    node.readInto buffer offset =
      let chunk := node.content.read offset buffer.length
      .ok (chunk.length, buffer.fill chunk) := by
  have hoffset : ¬(offset : Int) < 0 := by omega
  rw [readInto, if_neg hoffset, Int.toNat_natCast]
  by_cases hend : node.size ≤ offset
  · rw [if_pos hend, Bytes.read_of_length_le hend]
    rfl
  · rw [if_neg hend]

end Node

namespace Transfer

variable (id : NodeId) (state : State)

theorem readAt_natCast_run (size offset : Nat) : readAt id size offset state =
    .ok ((state.node id).content.read offset size) state := by
  rw [readAt_run, Node.readAt_natCast]
  rfl

theorem readInto_natCast_run (buffer : Bytes) (offset : Nat) : readInto id buffer offset state =
    let chunk := (state.node id).content.read offset buffer.length
    .ok (chunk.length, buffer.fill chunk) state := by
  rw [readInto_run, Node.readInto_natCast]
  rfl

end Transfer

/-- A way to read a chunk. -/
inductive Reader where
  /-- Fresh bytes, as many as the buffer has room for. -/
  | copying
  /-- The front of the buffer. -/
  | filling
  deriving DecidableEq

namespace Reader

variable {reader : Reader} {id : NodeId} {buffer chunk filled collected : Bytes}
  {offset calls : Nat} {state last : State}

/-- One chunk from an offset on, and the buffer after it. -/
def draw (reader : Reader) (id : NodeId) (buffer : Bytes) (offset : Nat) : Act (Bytes × Bytes) :=
  match reader with
  | .copying => do
      let chunk ← Transfer.readAt id buffer.length offset
      return (chunk, buffer)
  | .filling => do
      let (count, filled) ← Transfer.readInto id buffer offset
      return (filled.take count, filled)

/-- A reader goes on from an offset, by as many bytes as it got, until it gets fewer than the
buffer has room for: how often it reads, what it has then, and in which state it ends. -/
inductive Drains (reader : Reader) (id : NodeId) :
    Bytes → Nat → State → Nat → Bytes → State → Prop
  | short {buffer chunk filled : Bytes} {offset : Nat} {state last : State}
      (hdraw : reader.draw id buffer offset state = .ok (chunk, filled) last)
      (hshort : chunk.length < buffer.length) :
      Drains reader id buffer offset state 1 chunk last
  | full {buffer chunk filled rest : Bytes} {offset calls : Nat} {state next last : State}
      (hdraw : reader.draw id buffer offset state = .ok (chunk, filled) next)
      (hfull : ¬chunk.length < buffer.length)
      (hrest : Drains reader id filled (offset + chunk.length) next calls rest last) :
      Drains reader id buffer offset state (calls + 1) (chunk ++ rest) last

/-- Either way a chunk is what is read of the content, and nothing changes but the buffer. -/
theorem draw_run (reader : Reader) (id : NodeId) (buffer : Bytes) (offset : Nat)
    (state : State) :
    ∃ filled, filled.length = buffer.length ∧ reader.draw id buffer offset state =
      .ok ((state.node id).content.read offset buffer.length, filled) state := by
  cases reader with
  | copying =>
      refine ⟨buffer, rfl, ?_⟩
      simp only [draw, Act.bind_run, Transfer.readAt_natCast_run]
      rfl
  | filling =>
      have hroom := (state.node id).content.length_read_le offset buffer.length
      refine ⟨_, Bytes.length_fill hroom, ?_⟩
      simp only [draw, Act.bind_run, Transfer.readInto_natCast_run, Bytes.take_fill]
      rfl

/-- A reader that stops has what there was from its offset on, and changed nothing. -/
theorem Drains.collected_eq (h : reader.Drains id buffer offset state calls collected last)
    (hroom : 0 < buffer.length) :
    let content := (state.node id).content
    calls = (content.length - offset) / buffer.length + 1 ∧
      collected = content.drop offset ∧ last = state := by
  induction h with
  | @short buffer chunk filled offset state last hdraw hshort =>
      obtain ⟨filled, -, hrun⟩ := draw_run reader id buffer offset state
      cases hdraw.symm.trans hrun
      rw [Bytes.length_read_lt_iff hroom] at hshort
      refine ⟨?_, Bytes.read_eq_drop (by omega), rfl⟩
      rw [Nat.div_eq_of_lt (by omega)]
  | @full buffer chunk filled rest offset calls state next last hdraw hfull hrest ih =>
      obtain ⟨filled, hfilled, hrun⟩ := draw_run reader id buffer offset state
      cases hdraw.symm.trans hrun
      rw [Bytes.length_read_lt_iff hroom, not_lt] at hfull
      rw [Bytes.length_read_of_le hfull, hfilled] at ih
      obtain ⟨rfl, rfl, rfl⟩ := ih hroom
      refine ⟨?_, Bytes.read_append_drop _ offset buffer.length, rfl⟩
      rw [Nat.sub_add_eq, ← Nat.div_eq_sub_div hroom (by omega)]

/-- Every reader with room in its buffer stops. -/
theorem drains (reader : Reader) (id : NodeId) (state : State) (hroom : 0 < buffer.length)
    (offset : Nat) : ∃ calls collected last,
      reader.Drains id buffer offset state calls collected last := by
  -- Each full chunk leaves less of the content behind its end.
  generalize hleft : (state.node id).content.length - offset = left
  induction left using Nat.strongRecOn generalizing buffer offset with
  | ind left ih =>
      obtain ⟨filled, hfilled, hdraw⟩ := draw_run reader id buffer offset state
      by_cases hshort : (state.node id).content.length < offset + buffer.length
      · exact ⟨_, _, _, .short hdraw ((Bytes.length_read_lt_iff hroom).mpr hshort)⟩
      · have hfull := (Bytes.length_read_lt_iff hroom).not.mpr hshort
        have hlength := Bytes.length_read_of_le (not_lt.mp hshort)
        obtain ⟨calls, collected, last, hrest⟩ := ih
          ((state.node id).content.length - (offset + buffer.length)) (by omega)
          (hfilled ▸ hroom) (offset + buffer.length) rfl
        rw [← hlength] at hrest
        exact ⟨_, _, _, .full hdraw hfull hrest⟩

theorem drains_iff (hroom : 0 < buffer.length) :
    let content := (state.node id).content
    reader.Drains id buffer offset state calls collected last ↔
      calls = (content.length - offset) / buffer.length + 1 ∧
        collected = content.drop offset ∧ last = state := by
  refine ⟨fun h => h.collected_eq hroom, ?_⟩
  rintro ⟨rfl, rfl, rfl⟩
  obtain ⟨calls, collected, after, h⟩ := drains reader id last hroom offset
  obtain ⟨rfl, rfl, rfl⟩ := h.collected_eq hroom
  exact h

end Reader

namespace State

open Transfer

/-- Reading of every content. The two ways give the same bytes, and a buffer keeps its length
and what stands behind them. Reads in a row are one read, and a read is short just when it
goes over the end. So a reader stops, when it has read once more than there are full chunks,
and then it has all that follows its first offset. Reading changes nothing of the store. -/
theorem reading_reaches_end (state : State) (id : NodeId) :
    let content := (state.node id).content
    (∀ (buffer : Bytes) (offset : Nat), ∃ chunk filled,
        readAt id buffer.length offset state = .ok chunk state ∧
          readInto id buffer offset state = .ok (chunk.length, filled) state ∧
          filled.length = buffer.length ∧ filled.take chunk.length = chunk ∧
          filled.drop chunk.length = buffer.drop chunk.length) ∧
      (∀ first second offset : Nat, ∃ front back,
        readAt id first offset state = .ok front state ∧
          readAt id second (offset + first : Nat) state = .ok back state ∧
          readAt id (first + second : Nat) offset state = .ok (front ++ back) state) ∧
      (∀ size offset : Nat, 0 < size → ∃ chunk, readAt id size offset state = .ok chunk state ∧
        (chunk.length < size ↔ content.length < offset + size)) ∧
      ∀ (reader : Reader) (buffer : Bytes) (offset calls : Nat) (collected : Bytes)
        (last : State), 0 < buffer.length →
          (reader.Drains id buffer offset state calls collected last ↔
            calls = (content.length - offset) / buffer.length + 1 ∧
              collected = content.drop offset ∧ last = state) := by
  intro content
  refine ⟨fun buffer offset => ?_, fun first second offset => ?_, fun size offset hsize => ?_,
    fun reader buffer offset calls collected last => Reader.drains_iff⟩
  · have hroom := content.length_read_le offset buffer.length
    exact ⟨content.read offset buffer.length, _, readAt_natCast_run id state _ offset,
      readInto_natCast_run id state buffer offset, Bytes.length_fill hroom,
      buffer.take_fill _, buffer.drop_fill _⟩
  · refine ⟨_, _, readAt_natCast_run id state first offset,
      readAt_natCast_run id state second (offset + first), ?_⟩
    rw [readAt_natCast_run, Bytes.read_add]
  · exact ⟨_, readAt_natCast_run id state size offset, Bytes.length_read_lt_iff hsize⟩

/-- Five bytes in chunks of two, and a content that its chunks fill exactly, where the last
read gives nothing. -/
theorem written_bytes_drained :
    let file : Call := ⟨.write, { method := .put, path := ['/', 'a'] }⟩
    let state := (State.start {}).follow
      [.call file, .work ⟨1⟩ (.write [104, 101, 108, 108, 111] 0)]
    0 < 2 ∧ Reader.copying.Drains ⟨1⟩ [0, 0] 0 state 3 [104, 101, 108, 108, 111] state ∧
      Reader.filling.Drains ⟨1⟩ [0, 0] 1 state 3 [101, 108, 108, 111] state ∧
      ∃ chunk, readAt ⟨1⟩ 2 4 state = .ok chunk state ∧ chunk.length < 2 := by
  intro file state
  obtain ⟨-, -, hshort, hdrains⟩ := reading_reaches_end state ⟨1⟩
  obtain ⟨chunk, hread, hlength⟩ := hshort 2 4 (by decide)
  refine ⟨by decide, ?_, ?_, chunk, hread, hlength.mpr (by decide +kernel)⟩
  · exact (hdrains .copying [0, 0] 0 3 _ state (by decide)).mpr
      ⟨by decide +kernel, by decide +kernel, rfl⟩
  · exact (hdrains .filling [0, 0] 1 3 _ state (by decide)).mpr
      ⟨by decide +kernel, by decide +kernel, rfl⟩

end State

end FlatTree
