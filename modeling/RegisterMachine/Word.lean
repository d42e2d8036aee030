/-!
Words as bytes, least significant byte first. Writing a word and reading it back are inverse on
words that fit and on byte strings of the right length.
-/
namespace RegisterMachine.Word

def count : Nat → Nat
  | 0 => 1
  | width + 1 => 256 * count width

def littleEndian : Nat → Nat → List UInt8
  | 0, _ => []
  | width + 1, n => UInt8.ofNat n :: littleEndian width (n / 256)

def ofLittleEndian : List UInt8 → Nat
  | [] => 0
  | byte :: rest => byte.toNat + 256 * ofLittleEndian rest

def signed (width n : Nat) : Int := Int.bmod n (count width)

def ofSigned (width : Nat) (n : Int) : Nat := (n % count width).toNat

@[simp] theorem length_littleEndian (width n : Nat) : (littleEndian width n).length = width := by
  induction width generalizing n with
  | zero => rfl
  | succ width ih => simp [littleEndian, ih]

theorem ofLittleEndian_littleEndian (width n : Nat) :
    ofLittleEndian (littleEndian width n) = n % count width := by
  induction width generalizing n with
  | zero => simp [littleEndian, ofLittleEndian, count, Nat.mod_one]
  | succ width ih =>
    have split : n % count (width + 1) = n % 256 + 256 * (n / 256 % count width) := Nat.mod_mul
    simp only [littleEndian, ofLittleEndian, ih, UInt8.toNat_ofNat', split]

theorem ofLittleEndian_lt (bytes : List UInt8) : ofLittleEndian bytes < count bytes.length := by
  induction bytes with
  | nil => simp [ofLittleEndian, count]
  | cons byte rest ih =>
    have := byte.toNat_lt
    simp only [ofLittleEndian, List.length_cons, count]
    omega

theorem littleEndian_ofLittleEndian (bytes : List UInt8) :
    littleEndian bytes.length (ofLittleEndian bytes) = bytes := by
  induction bytes with
  | nil => rfl
  | cons byte rest ih =>
    have lt := byte.toNat_lt
    have quotient : (byte.toNat + 256 * ofLittleEndian rest) / 256 = ofLittleEndian rest := by omega
    have head : UInt8.ofNat (byte.toNat + 256 * ofLittleEndian rest) = byte := by
      apply UInt8.toNat_inj.1
      simp only [UInt8.toNat_ofNat']
      omega
    simp only [List.length_cons, ofLittleEndian, littleEndian, quotient, head, ih]

theorem littleEndian_inj {width m n : Nat} (hm : m < count width) (hn : n < count width)
    (heq : littleEndian width m = littleEndian width n) : m = n := by
  have hread := congrArg ofLittleEndian heq
  rwa [ofLittleEndian_littleEndian, ofLittleEndian_littleEndian, Nat.mod_eq_of_lt hm,
    Nat.mod_eq_of_lt hn] at hread

end RegisterMachine.Word
