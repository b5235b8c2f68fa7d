import DocFerry.Model.Iface

/-!
# Frames on the wire

What the connection carries, without any of the code: a frame is an id and a
value, on the wire the id and the length of the value in network order and then
the value. The server's purpose is stated over lists of frames.
-/

namespace DocFerry

open Bytes

/-- A frame whose length field can hold the length of its value. -/
structure Frame where
  id : UInt32
  value : List UInt8
  small : value.length < 2 ^ 32

/-- The length field. -/
def Frame.len (f : Frame) : UInt32 := UInt32.ofNat f.value.length

@[simp] theorem Frame.len_toNat (f : Frame) : f.len.toNat = f.value.length :=
  UInt32.toNat_ofNat_of_lt' f.small

/-- The eight header bytes of a frame. -/
def Frame.head (f : Frame) : List UInt8 := storeWord .big f.id ++ storeWord .big f.len

/-- The bytes of a frame. -/
def Frame.wire (f : Frame) : List UInt8 := f.head ++ f.value

@[simp] theorem Frame.length_head (f : Frame) : f.head.length = 8 := by simp [Frame.head]

@[simp] theorem Frame.length_wire (f : Frame) : f.wire.length = 8 + f.value.length := by
  simp [Frame.wire]

/-- The bytes of the frames one after another. -/
def wires (fs : List Frame) : List UInt8 := (fs.map Frame.wire).flatten

@[simp] theorem wires_nil : wires [] = [] := rfl

@[simp] theorem wires_cons (f : Frame) (fs : List Frame) : wires (f :: fs) = f.wire ++ wires fs := rfl

@[simp] theorem wires_append (fs gs : List Frame) : wires (fs ++ gs) = wires fs ++ wires gs := by
  simp [wires]

/-- A prefix of a frame that is not the whole frame. -/
def Incomplete (tail : List UInt8) : Prop := ∃ g : Frame, tail <+: g.wire ∧ tail ≠ g.wire

/-- The header that eight bytes of the wire announce. -/
def headOf (data : List UInt8) : Header :=
  ⟨loadWord .big (data.take 4), loadWord .big ((data.drop 4).take 4)⟩

/-- Bytes that start with a frame's header announce that header. -/
theorem headOf_of_prefix {f : Frame} {data : List UInt8} (h : f.head <+: data) :
    headOf data = ⟨f.id, f.len⟩ := by
  obtain ⟨rest, rfl⟩ := h
  have h4 : (storeWord .big f.id).length = 4 := length_storeWord _ _
  have hd : ((storeWord .big f.id ++ storeWord .big f.len ++ rest).drop 4).take 4 =
      storeWord .big f.len := by
    rw [List.append_assoc, List.drop_left' h4, List.take_left' (length_storeWord _ _)]
  unfold headOf Frame.head
  rw [hd, List.append_assoc, List.take_left' h4, loadWord_storeWord, loadWord_storeWord]

/-- The frame of id 1 and value `[5]`. -/
def smallFrame : Frame := ⟨1, [5], by decide⟩

/-- The frame of id 1 and no value. -/
def emptyFrame : Frame := ⟨1, [], by decide⟩

end DocFerry
