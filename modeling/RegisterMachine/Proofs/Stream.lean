import RegisterMachine.Disassembly
import RegisterMachine.Proofs.Encoding

/-!
Streams of instructions. An instruction decodes from the bytes that start with its encoding and from no
others, so a range of bytes decodes to a list of instructions exactly when it is the encoding of that
list, and the list is the only one with that encoding.
-/
namespace RegisterMachine

theorem append_prefix_iff {α : Type} {first second list : List α} :
    first ++ second <+: list ↔ first <+: list ∧ second <+: list.drop first.length := by
  constructor
  · rintro ⟨rest, rfl⟩
    rw [List.append_assoc, List.drop_left]
    exact ⟨List.prefix_append .., List.prefix_append ..⟩
  · rintro ⟨⟨rest, rfl⟩, hsecond⟩
    rw [List.drop_left] at hsecond
    exact (List.prefix_append_right_inj first).mpr hsecond

theorem OperandKind.size_pos (kind : OperandKind) : 0 < kind.size := by
  cases kind <;> decide

namespace Operand

theorem length_encode (operand : Operand) : operand.encode.length = operand.kind.size := by
  cases operand with
  | word value => exact Word.length_littleEndian ..
  | _ => rfl

theorem kind_decode (bytes : List UInt8) (kind : OperandKind) : (decode bytes kind).kind = kind := by
  cases kind <;> rfl

theorem encode_decode {bytes : List UInt8} {kind : OperandKind} (h : bytes.length = kind.size) :
    (decode bytes kind).encode = bytes := by
  cases kind with
  | register | byte =>
    obtain ⟨byte, rfl⟩ := List.length_eq_one_iff.mp h
    simp [decode, encode, Word.ofLittleEndian]
  | word =>
    have hlt : Word.ofLittleEndian bytes < Word.count 8 := by
      have := Word.ofLittleEndian_lt bytes
      rwa [h] at this
    have hword : (UInt64.ofNat (Word.ofLittleEndian bytes)).toInt64.toUInt64.toNat =
        Word.ofLittleEndian bytes := by
      rw [UInt64.toUInt64_toInt64, UInt64.toNat_ofNat']
      exact Nat.mod_eq_of_lt hlt
    have hbytes := Word.littleEndian_ofLittleEndian bytes
    rw [h] at hbytes
    simp only [decode, encode, hword]
    exact hbytes

theorem decode_encode (operand : Operand) : decode operand.encode operand.kind = operand := by
  cases operand with
  | register value | byte value => simp [decode, encode, kind, Word.ofLittleEndian]
  | word value =>
    have hlt : value.toUInt64.toNat < Word.count 8 := value.toUInt64.toNat_lt
    simp only [decode, encode, kind, Word.ofLittleEndian_littleEndian, Nat.mod_eq_of_lt hlt,
      UInt64.ofNat_toNat]
    rfl

end Operand

namespace Disassembly

theorem toList_extract_add (bytes : Array UInt8) (offset size : Nat) :
    (bytes.extract offset (offset + size)).toList = (bytes.toList.drop offset).take size := by
  rw [Array.toList_extract, List.extract_eq_take_drop, Nat.add_sub_cancel_left]

theorem operandsAt_eq_ok_iff {bytes : Array UInt8} {offset : Nat} {kinds : List OperandKind}
    {operands : List Operand} :
    operandsAt bytes offset kinds = .ok operands ↔
      operands.map Operand.kind = kinds ∧
      operands.flatMap Operand.encode <+: bytes.toList.drop offset := by
  induction kinds generalizing offset operands with
  | nil =>
    rw [List.map_eq_nil_iff]
    constructor
    · rintro ⟨⟩
      exact ⟨rfl, List.nil_prefix⟩
    · rintro ⟨rfl, -⟩
      rfl
  | cons kind kinds ih =>
    rw [operandsAt, toList_extract_add]
    constructor
    · intro h
      split at h
      · rename_i hinside
        obtain ⟨rest, hrest, ⟨⟩⟩ := bind_eq_ok_iff.mp h
        obtain ⟨hkinds, hprefix⟩ := ih.mp hrest
        have hlength : ((bytes.toList.drop offset).take kind.size).length = kind.size := by
          rw [List.length_take, List.length_drop, Array.length_toList]
          omega
        rw [List.map_cons, Operand.kind_decode, hkinds, List.flatMap_cons,
          Operand.encode_decode hlength, append_prefix_iff, hlength, List.drop_drop]
        exact ⟨rfl, List.take_prefix .., hprefix⟩
      · cases h
    · rintro ⟨hkinds, hprefix⟩
      cases operands with
      | nil => cases hkinds
      | cons operand rest =>
        cases hkinds
        rw [List.flatMap_cons, append_prefix_iff, operand.length_encode, List.drop_drop] at hprefix
        obtain ⟨hfirst, hrest⟩ := hprefix
        have hinside : offset + operand.kind.size ≤ bytes.size := by
          have hpos := operand.kind.size_pos
          have hle := hfirst.length_le
          rw [operand.length_encode, List.length_drop, Array.length_toList] at hle
          omega
        have htake : (bytes.toList.drop offset).take operand.kind.size = operand.encode := by
          rw [← operand.length_encode]
          exact (List.prefix_iff_eq_take.mp hfirst).symm
        rw [if_pos hinside, htake, operand.decode_encode, ih.mpr ⟨rfl, hrest⟩]
        rfl

theorem decodeAt_eq_ok_iff {bytes : Array UInt8} {offset : Nat} {decoded : Decoded} :
    decodeAt bytes offset = .ok decoded ↔
      decoded.offset = offset ∧ decoded.WellFormed ∧
      decoded.encode <+: bytes.toList.drop offset := by
  unfold decodeAt
  split
  · rename_i hnone
    have hnil : bytes.toList.drop offset = [] := by
      rw [List.drop_eq_nil_iff, Array.length_toList]
      exact Array.getElem?_eq_none_iff.mp hnone
    rw [hnil]
    constructor
    · rintro ⟨⟩
    · rintro ⟨-, -, hprefix⟩
      cases List.prefix_nil.mp hprefix
  rename_i opcode hopcode
  have hcons : bytes.toList.drop offset = opcode :: bytes.toList.drop (offset + 1) := by
    obtain ⟨hinside, hbyte⟩ := Array.getElem?_eq_some_iff.mp hopcode
    rw [List.drop_eq_getElem_cons (by simpa using hinside), Array.getElem_toList, hbyte]
  rw [hcons, Decoded.encode, List.cons_prefix_cons, ← Instruction.ofOpcode?_eq_some_iff]
  split
  · rename_i hunknown
    rw [hunknown]
    constructor
    · rintro ⟨⟩
    · rintro ⟨-, -, ⟨⟩, -⟩
  rename_i instruction hinstruction
  rw [hinstruction, bind_eq_ok_iff]
  constructor
  · rintro ⟨operands, hoperands, ⟨⟩⟩
    obtain ⟨hkinds, hprefix⟩ := operandsAt_eq_ok_iff.mp hoperands
    exact ⟨rfl, hkinds, rfl, hprefix⟩
  · rintro ⟨rfl, hformed, ⟨⟩, hprefix⟩
    exact ⟨decoded.operands, operandsAt_eq_ok_iff.mpr ⟨hformed, hprefix⟩, rfl⟩

end Disassembly

namespace Decoded

def placedFrom (start : Nat) : List Decoded → List Decoded
  | [] => []
  | decoded :: rest =>
    { decoded with offset := start } :: placedFrom (start + decoded.encode.length) rest

theorem length_encode {decoded : Decoded} (h : decoded.WellFormed) :
    decoded.encode.length = decoded.size := by
  have hoperands (operands : List Operand) : (operands.flatMap Operand.encode).length =
      OperandKind.totalSize (operands.map Operand.kind) := by
    induction operands with
    | nil => rfl
    | cons operand rest ih =>
      rw [List.flatMap_cons, List.length_append, operand.length_encode, ih]
      rfl
  rw [encode, List.length_cons, hoperands, h, size, Instruction.operandSize, Nat.add_comm]

/-- The bytes from `start` on are those of the listed instructions. -/
structure IsStream (start : Nat) (bytes : List UInt8) (list : List Decoded) : Prop where
  wellFormed : ∀ decoded ∈ list, decoded.WellFormed
  offsets : placedFrom start list = list
  bytes_eq : list.flatMap encode = bytes

theorem isStream_nil {start : Nat} {bytes : List UInt8} :
    IsStream start bytes [] ↔ bytes = [] := by
  constructor
  · rintro ⟨-, -, rfl⟩
    rfl
  · rintro rfl
    exact ⟨fun _ hmem => absurd hmem List.not_mem_nil, rfl, rfl⟩

theorem isStream_cons {start : Nat} {bytes : List UInt8} {decoded : Decoded} {rest : List Decoded} :
    IsStream start bytes (decoded :: rest) ↔
      decoded.offset = start ∧ decoded.WellFormed ∧ decoded.encode <+: bytes ∧
      IsStream (start + decoded.size) (bytes.drop decoded.size) rest := by
  constructor
  · rintro ⟨hformed, hoffsets, rfl⟩
    rw [List.forall_mem_cons] at hformed
    obtain ⟨hfirst, hrest⟩ := List.cons.inj hoffsets
    rw [length_encode hformed.1] at hrest
    rw [List.flatMap_cons, ← length_encode hformed.1, List.drop_left, length_encode hformed.1]
    exact ⟨(congrArg offset hfirst).symm, hformed.1, List.prefix_append .., hformed.2, hrest, rfl⟩
  · rintro ⟨rfl, hformed, ⟨more, rfl⟩, hrest⟩
    rw [← length_encode hformed, List.drop_left] at hrest
    refine ⟨List.forall_mem_cons.mpr ⟨hformed, hrest.wellFormed⟩, ?_, ?_⟩
    · rw [placedFrom, hrest.offsets]
    · rw [List.flatMap_cons, hrest.bytes_eq]

end Decoded

namespace Disassembly

open Decoded

theorem sweepFrom_end {bytes : Array UInt8} {offset : Nat} (h : bytes.size ≤ offset)
    (found : Array Decoded) : sweepFrom bytes offset found = ⟨found, offset, none⟩ := by
  rw [sweepFrom, if_neg (Nat.not_lt.mpr h)]

theorem sweepFrom_ok {bytes : Array UInt8} {offset : Nat} {decoded : Decoded}
    (h : decodeAt bytes offset = .ok decoded) (found : Array Decoded) :
    sweepFrom bytes offset found =
      sweepFrom bytes (offset + decoded.size) (found.push decoded) := by
  have hinside : offset < bytes.size := by
    have hle := (decodeAt_eq_ok_iff.mp h).2.2.length_le
    have hsize : bytes.toList.length = bytes.size := Array.length_toList
    rw [Decoded.encode, List.length_cons, List.length_drop] at hle
    omega
  rw [sweepFrom, if_pos hinside, h]

theorem sweepFrom_past {bytes : Array UInt8} {offset : Nat} {read : List UInt8} {list : List Decoded}
    (h : IsStream offset read list) (hnext : read <+: bytes.toList.drop offset)
    (found : Array Decoded) :
    sweepFrom bytes offset found =
      sweepFrom bytes (offset + read.length) (found ++ list.toArray) := by
  induction list generalizing offset read found with
  | nil =>
    rw [isStream_nil.mp h]
    simp
  | cons decoded rest ih =>
    obtain ⟨hoffset, hformed, ⟨later, rfl⟩, hrest⟩ := isStream_cons.mp h
    have hlength := length_encode hformed
    rw [← hlength, List.drop_left, hlength] at hrest
    rw [append_prefix_iff, hlength, List.drop_drop] at hnext
    rw [sweepFrom_ok (decodeAt_eq_ok_iff.mpr ⟨hoffset, hformed, hnext.1⟩), ih hrest hnext.2,
      List.length_append, hlength, Nat.add_assoc]
    simp

theorem sweepFrom_cases (bytes : Array UInt8) (offset : Nat) (found : Array Decoded) :
    ∃ read list, IsStream offset read list ∧ read <+: bytes.toList.drop offset ∧
      ((bytes.size ≤ offset + read.length ∧
        sweepFrom bytes offset found = ⟨found ++ list.toArray, offset + read.length, none⟩) ∨
      ∃ fault, offset + read.length < bytes.size ∧
        decodeAt bytes (offset + read.length) = .error fault ∧
        sweepFrom bytes offset found =
          ⟨found ++ list.toArray, offset + read.length, some fault⟩) := by
  fun_induction sweepFrom bytes offset found with
  | case1 offset found hinside decoded hdecode ih =>
    obtain ⟨read, list, hstream, hprefix, hend⟩ := ih
    obtain ⟨hoffset, hformed, hfirst⟩ := decodeAt_eq_ok_iff.mp hdecode
    have hlength := length_encode hformed
    have hstop : offset + (decoded.encode ++ read).length = offset + decoded.size + read.length := by
      rw [List.length_append, hlength]
      omega
    have hfound : found ++ (decoded :: list).toArray = found.push decoded ++ list.toArray := by simp
    refine ⟨decoded.encode ++ read, decoded :: list, ?_, ?_, ?_⟩
    · rw [isStream_cons, ← hlength, List.drop_left, hlength]
      exact ⟨hoffset, hformed, List.prefix_append .., hstream⟩
    · rw [append_prefix_iff, hlength, List.drop_drop]
      exact ⟨hfirst, hprefix⟩
    · rw [hstop, hfound]
      exact hend
  | case2 offset found hinside fault hfault =>
    exact ⟨[], [], isStream_nil.mpr rfl, List.nil_prefix, .inr ⟨fault, hinside, hfault, by simp⟩⟩
  | case3 offset found hend =>
    exact ⟨[], [], isStream_nil.mpr rfl, List.nil_prefix, .inl ⟨Nat.le_of_not_lt hend, by simp⟩⟩

theorem isStream_of_sweepFrom {bytes : Array UInt8} {offset : Nat} {found : Array Decoded}
    (h : (sweepFrom bytes offset found).fault = none) :
    ∃ list, (sweepFrom bytes offset found).instructions.toList = found.toList ++ list ∧
      IsStream offset (bytes.toList.drop offset) list := by
  obtain ⟨read, list, hstream, hprefix, ⟨hend, hsweep⟩ | ⟨fault, -, -, hsweep⟩⟩ :=
    sweepFrom_cases bytes offset found
  · have hwhole : read = bytes.toList.drop offset := by
      apply hprefix.eq_of_length_le
      rw [List.length_drop, Array.length_toList]
      omega
    rw [hsweep, ← hwhole]
    exact ⟨list, by simp, hstream⟩
  · rw [hsweep] at h
    cases h

theorem sweepFrom_of_isStream {bytes : Array UInt8} {offset : Nat} {list : List Decoded}
    (h : IsStream offset (bytes.toList.drop offset) list) (found : Array Decoded) :
    (sweepFrom bytes offset found).fault = none ∧
      (sweepFrom bytes offset found).instructions.toList = found.toList ++ list := by
  rw [sweepFrom_past h List.prefix_rfl, sweepFrom_end]
  · exact ⟨rfl, by simp⟩
  · rw [List.length_drop, Array.length_toList]
    omega

theorem range_eq_ok_iff {bytes : Array UInt8} {start stop : Nat} {list : List Decoded} :
    range bytes start stop = .ok list ↔
      IsStream start (bytes.extract start (min stop bytes.size)).toList list := by
  have hbytes : (bytes.extract start (min stop bytes.size)).toList =
      (bytes.extract 0 stop).toList.drop start := by
    have hsize : bytes.toList.length = bytes.size := Array.length_toList
    simp only [Array.toList_extract, List.extract_eq_take_drop, List.drop_zero, Nat.sub_zero,
      List.drop_take, List.take_eq_take_iff, List.length_drop]
    omega
  rw [hbytes, range]
  constructor
  · intro h
    split at h
    · cases h
    · rename_i hfault
      obtain ⟨list', hlist, hstream⟩ := isStream_of_sweepFrom hfault
      cases h
      rw [hlist]
      exact hstream
  · intro h
    obtain ⟨hfault, hlist⟩ := sweepFrom_of_isStream h #[]
    rw [hfault, hlist]
    rfl

theorem sweepFrom_found (bytes : Array UInt8) (offset : Nat) (found : Array Decoded) :
    sweepFrom bytes offset found =
      let sweep := sweepFrom bytes offset #[]
      { sweep with instructions := found ++ sweep.instructions } := by
  obtain ⟨read, list, hstream, hprefix, hend⟩ := sweepFrom_cases bytes offset #[]
  rw [sweepFrom_past hstream hprefix found]
  rcases hend with ⟨hend, hsweep⟩ | ⟨fault, hinside, hfault, hsweep⟩
  · rw [hsweep, sweepFrom_end hend]
    simp
  · rw [hsweep, sweepFrom, if_pos hinside, hfault]
    simp

theorem sweepFrom_again {bytes : Array UInt8} {offset : Nat} {decoded : Decoded}
    (h : decodeAt bytes offset = .ok decoded) :
    sweepFrom bytes offset #[] =
      let sweep := sweepFrom bytes (offset + decoded.size) #[]
      { sweep with instructions := #[decoded] ++ sweep.instructions } := by
  rw [sweepFrom_ok h, sweepFrom_found]
  rfl

/-- The range as a loop of its own, which a fault ends. -/
theorem range_eq (bytes : Array UInt8) (start stop : Nat) :
    range bytes start stop =
      if start < (bytes.extract 0 stop).size then do
        let decoded ← decodeAt (bytes.extract 0 stop) start
        let later ← range bytes (start + decoded.size) stop
        return decoded :: later
      else .ok [] := by
  unfold range
  by_cases hinside : start < (bytes.extract 0 stop).size
  · rw [if_pos hinside]
    cases hdecode : decodeAt (bytes.extract 0 stop) start with
    | error fault =>
      rw [sweepFrom, if_pos hinside, hdecode]
      rfl
    | ok decoded =>
      rw [sweepFrom_again hdecode]
      cases hfault : (sweepFrom (bytes.extract 0 stop) (start + decoded.size) #[]).fault with
      | none => simp [hfault, bind, Except.bind, pure, Except.pure]
      | some fault => simp [hfault, bind, Except.bind]
  · rw [if_neg hinside, sweepFrom_end (Nat.le_of_not_lt hinside)]

theorem whole_eq_ok_iff {bytes : List UInt8} {list : List Decoded} :
    whole bytes.toArray = .ok list ↔ IsStream 0 bytes list := by
  rw [whole, range_eq_ok_iff]
  simp

end Disassembly

namespace Decoded

def content (decoded : Decoded) : Instruction × List Operand :=
  (decoded.instruction, decoded.operands)

theorem map_content_placedFrom (start : Nat) (list : List Decoded) :
    (placedFrom start list).map content = list.map content := by
  induction list generalizing start with
  | nil => rfl
  | cons decoded rest ih =>
    rw [placedFrom, List.map_cons, ih, List.map_cons]
    rfl

theorem isStream_placedFrom {start : Nat} {list : List Decoded}
    (h : ∀ decoded ∈ list, decoded.WellFormed) :
    IsStream start (list.flatMap encode) (placedFrom start list) := by
  induction list generalizing start with
  | nil => exact isStream_nil.mpr rfl
  | cons decoded rest ih =>
    rw [List.forall_mem_cons] at h
    have hlength := length_encode h.1
    rw [placedFrom, isStream_cons, List.flatMap_cons]
    refine ⟨rfl, h.1, List.prefix_append .., ?_⟩
    change IsStream (start + decoded.size) ((decoded.encode ++ rest.flatMap encode).drop decoded.size)
      (placedFrom (start + decoded.encode.length) rest)
    rw [← hlength, List.drop_left]
    exact ih h.2

end Decoded

open Disassembly Decoded in
/-- Disassembly is the inverse of encoding. A range of bytes decodes to a list of instructions exactly
when these are well formed, stand one after the other and have the range as their encoding. So every
list of instructions is read back from its encoding, and no two have one encoding. -/
theorem disassembly_inverts_encoding :
    (∀ bytes start stop list, range bytes start stop = .ok list ↔
      (∀ decoded ∈ list, decoded.WellFormed) ∧ placedFrom start list = list ∧
      list.flatMap encode = (bytes.extract start (min stop bytes.size)).toList) ∧
    (∀ list : List Decoded, (∀ decoded ∈ list, decoded.WellFormed) →
      whole (list.flatMap encode).toArray = .ok (placedFrom 0 list)) ∧
    ∀ list other : List Decoded, (∀ decoded ∈ list, decoded.WellFormed) →
      (∀ decoded ∈ other, decoded.WellFormed) →
      list.flatMap encode = other.flatMap encode → list.map content = other.map content := by
  have hinverts : ∀ list : List Decoded, (∀ decoded ∈ list, decoded.WellFormed) →
      whole (list.flatMap encode).toArray = .ok (placedFrom 0 list) :=
    fun list hformed => whole_eq_ok_iff.mpr (isStream_placedFrom hformed)
  refine ⟨fun bytes start stop list => ?_, hinverts, fun list other hlist hother hencode => ?_⟩
  · rw [range_eq_ok_iff]
    constructor
    · rintro ⟨hformed, hoffsets, hbytes⟩
      exact ⟨hformed, hoffsets, hbytes⟩
    · rintro ⟨hformed, hoffsets, hbytes⟩
      exact ⟨hformed, hoffsets, hbytes⟩
  · have hplaced : placedFrom 0 list = placedFrom 0 other := by
      have hread := hinverts list hlist
      rw [hencode, hinverts other hother] at hread
      exact (Except.ok.inj hread).symm
    rw [← map_content_placedFrom 0 list, hplaced, map_content_placedFrom]

def Decoded.jumpToReturn : List Decoded := [⟨0, .jump, [.word 9]⟩, ⟨9, .ret, []⟩]

open Disassembly Decoded in
theorem disassembly_inverts_encoding_jumpToReturn :
    (∀ decoded ∈ jumpToReturn, decoded.WellFormed) ∧
    range #[11, 9, 0, 0, 0, 0, 0, 0, 0, 36, 11] 0 10 = .ok jumpToReturn ∧
    whole #[11, 9, 0, 0, 0, 0, 0, 0, 0, 36] = .ok jumpToReturn := by
  have hformed : ∀ decoded ∈ jumpToReturn, decoded.WellFormed := by
    unfold WellFormed
    decide
  have hinverts := disassembly_inverts_encoding
  exact ⟨hformed, (hinverts.1 _ _ _ _).mpr ⟨hformed, by rfl, by decide +kernel⟩,
    hinverts.2.1 jumpToReturn hformed⟩

end RegisterMachine
