/-!
Byte contents. Reading clips at the end, writing fills a gap with zeros and never shortens, and
resizing cuts or fills with zeros.
-/

namespace FlatTree

abbrev Bytes := List UInt8

namespace Bytes

/-- Up to `size` bytes from `offset` on. -/
def read (content : Bytes) (offset size : Nat) : Bytes :=
  (content.drop offset).take size

/-- Zeros at the end, so that there are at least `length` bytes. -/
def padTo (content : Bytes) (length : Nat) : Bytes :=
  content ++ List.replicate (length - content.length) 0

/-- The content with `data` laid over it at `offset`. -/
def write (content : Bytes) (offset : Nat) (data : Bytes) : Bytes :=
  let padded := content.padTo (offset + data.length)
  padded.take offset ++ data ++ padded.drop (offset + data.length)

/-- Exactly `size` bytes. -/
def resize (content : Bytes) (size : Nat) : Bytes :=
  (content.padTo size).take size

/-- A buffer with `chunk` laid over its front. -/
def fill (buffer chunk : Bytes) : Bytes :=
  chunk ++ buffer.drop chunk.length

@[simp] theorem length_padTo (content : Bytes) (length : Nat) :
    (content.padTo length).length = max content.length length := by
  simp only [padTo, List.length_append, List.length_replicate]
  omega

@[simp] theorem length_write (content : Bytes) (offset : Nat) (data : Bytes) :
    (content.write offset data).length = max content.length (offset + data.length) := by
  simp only [write, List.length_append, List.length_take, List.length_drop, length_padTo]
  omega

@[simp] theorem length_resize (content : Bytes) (size : Nat) :
    (content.resize size).length = size := by
  simp only [resize, List.length_take, length_padTo]
  omega

end Bytes

end FlatTree
