/-!
Program images: a flat stream of bytes, loaded at address zero, of which a leading part is code.
-/
namespace RegisterMachine

structure Image where
  bytes : Array UInt8
  codeSize : Nat
  codeSize_le : codeSize ≤ bytes.size
  deriving DecidableEq

namespace Image

def ofCodeSize (bytes : Array UInt8) (codeSize : Nat) : Image :=
  ⟨bytes, min codeSize bytes.size, Nat.min_le_right ..⟩

def ofBytes (bytes : Array UInt8) : Image := ⟨bytes, bytes.size, Nat.le_refl _⟩

def size (image : Image) : Nat := image.bytes.size

def code (image : Image) : Array UInt8 := image.bytes.extract 0 image.codeSize

def data (image : Image) : Array UInt8 := image.bytes.extract image.codeSize image.bytes.size

theorem toList_code_ofCodeSize (bytes : List UInt8) (codeSize : Nat) :
    (ofCodeSize bytes.toArray codeSize).code.toList = bytes.take codeSize := by
  by_cases hsize : codeSize ≤ bytes.length
  · simp [code, ofCodeSize, Nat.min_eq_left hsize]
  · have hle := Nat.le_of_not_le hsize
    simp [code, ofCodeSize, Nat.min_eq_right hle, List.take_of_length_le hle]

theorem toList_data_ofCodeSize (bytes : List UInt8) (codeSize : Nat) :
    (ofCodeSize bytes.toArray codeSize).data.toList = bytes.drop codeSize := by
  by_cases hsize : codeSize ≤ bytes.length
  · simp [data, ofCodeSize, Nat.min_eq_left hsize, List.take_of_length_le]
  · have hle := Nat.le_of_not_le hsize
    simp [data, ofCodeSize, Nat.min_eq_right hle, List.drop_of_length_le hle]

end Image

end RegisterMachine
