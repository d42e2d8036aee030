import RegisterMachine.Listing
import RegisterMachine.Proofs.Decimal
import RegisterMachine.Proofs.Leading

/-!
The text of a listing. Its lines are fields with separators between them, and no field has a character of
a separator, so that the fields are read back from a line and the lines from the text. Numbers are told
apart in each of the formats, so an instruction is known from its line and bytes from their row, and with
them all bytes of the image.
-/
namespace RegisterMachine

theorem append_inj_of_run {α : Type} {p : α → Prop} {x y s t : List α} (hx : ∀ a ∈ x, p a)
    (hy : ∀ a ∈ y, p a) (hs : ∀ a ∈ s.head?, ¬ p a) (ht : ∀ a ∈ t.head?, ¬ p a)
    (h : x ++ s = y ++ t) : x = y ∧ s = t := by
  induction x generalizing y with
  | nil =>
    cases y with
    | nil => exact ⟨rfl, h⟩
    | cons b y =>
      rw [List.nil_append] at h
      exact absurd (hy b List.mem_cons_self) (hs b (by rw [h]; rfl))
  | cons a x ih =>
    cases y with
    | nil =>
      rw [List.nil_append] at h
      exact absurd (hx a List.mem_cons_self) (ht a (by rw [← h]; rfl))
    | cons b y =>
      rw [List.forall_mem_cons] at hx hy
      obtain ⟨rfl, hrest⟩ := List.cons.inj h
      obtain ⟨rfl, htail⟩ := ih hx.2 hy.2 hrest
      exact ⟨rfl, htail⟩

namespace Numeral

def hexValue (c : Char) : Nat := if c.isDigit then c.toNat - '0'.toNat else c.toNat - 'a'.toNat + 10

theorem hexValue_digitChar {d : Nat} (h : d < 16) : hexValue (Nat.digitChar d) = d := by
  have hall : ∀ d : Fin 16, hexValue (Nat.digitChar d.val) = d.val := by decide
  exact hall ⟨d, h⟩

def ofHex (cs : List Char) : Nat := cs.foldl (fun n c => 16 * n + hexValue c) 0

theorem ofHex_hexDigits (n : Nat) : ofHex (hexDigits n) = n := by
  induction n using Nat.strongRecOn with
  | ind n ih =>
    unfold hexDigits
    rw [Nat.toDigits_eq_if (by decide)]
    split
    · rename_i hsmall
      simp [ofHex, hexValue_digitChar hsmall]
    · have hquotient : ofHex (hexDigits (n / 16)) = n / 16 := ih (n / 16) (by omega)
      have hlast := hexValue_digitChar (Nat.mod_lt n (by decide : 16 > 0))
      unfold ofHex hexDigits at *
      rw [List.foldl_append, hquotient]
      simp [hlast]
      omega

theorem ofHex_leftpad (width : Nat) (cs : List Char) : ofHex (cs.leftpad width '0') = ofHex cs := by
  have hzeros (count : Nat) :
      (List.replicate count '0').foldl (fun n c => 16 * n + hexValue c) 0 = 0 := by
    induction count with
    | zero => rfl
    | succ count ih => exact ih
  unfold ofHex List.leftpad
  rw [List.foldl_append, hzeros]

theorem hex_injective {width m n : Nat} (h : hex width m = hex width n) : m = n := by
  have hvalue := congrArg ofHex (String.ofList_injective h)
  rwa [ofHex_leftpad, ofHex_leftpad, ofHex_hexDigits, ofHex_hexDigits] at hvalue

theorem address_injective {m n : Nat} (h : address m = address n) : m = n :=
  hex_injective ((String.append_right_inj _).mp h)

theorem exists_of_mem_hexDigits {n : Nat} {c : Char} (h : c ∈ hexDigits n) :
    ∃ d < 16, c = Nat.digitChar d := by
  induction n using Nat.strongRecOn with
  | ind n ih =>
    unfold hexDigits at h
    rw [Nat.toDigits_eq_if (by decide)] at h
    split at h
    · rename_i hsmall
      exact ⟨n, hsmall, List.mem_singleton.mp h⟩
    · rcases List.mem_append.mp h with h | h
      · exact ih (n / 16) (by omega) h
      · exact ⟨n % 16, by omega, List.mem_singleton.mp h⟩

end Numeral

namespace Listing

/-- The characters of offsets, mnemonics, operands and bytes. Others stand between these. -/
def isFieldChar (c : Char) : Bool := c.isAlphanum || c = '_'

structure IsField (text : String) : Prop where
  nonempty : text.toList ≠ []
  chars : text.toList.all isFieldChar = true

theorem IsField.of_mem {text : String} (h : IsField text) {c : Char} (hc : c ∈ text.toList) :
    isFieldChar c = true :=
  List.all_eq_true.mp h.chars c hc

theorem isField_hex (width n : Nat) : IsField (Numeral.hex width n) := by
  have hdigits : ∀ d : Fin 16, isFieldChar (Nat.digitChar d.val) = true := by decide
  constructor
  · have := Nat.toDigits_ne_nil (b := 16) (n := n)
    simp [Numeral.hex, Numeral.hexDigits, List.leftpad, this]
  · rw [List.all_eq_true]
    intro c hc
    simp only [Numeral.hex, String.toList_ofList, List.leftpad, List.mem_append,
      List.mem_replicate] at hc
    rcases hc with ⟨-, rfl⟩ | hc
    · decide
    · obtain ⟨d, hd, rfl⟩ := Numeral.exists_of_mem_hexDigits hc
      exact hdigits ⟨d, hd⟩

theorem isField_decimal (n : Nat) : IsField (Numeral.decimal n) := by
  constructor
  · simp [Numeral.decimal, Numeral.decimalDigits_ne_nil]
  · rw [List.all_eq_true]
    intro c hc
    rw [Numeral.decimal, String.toList_ofList] at hc
    have hdigit := Numeral.isDigit_of_mem_decimalDigits hc
    simp [isFieldChar, Char.isAlphanum, hdigit]

theorem IsField.append {first second : String} (hfirst : IsField first) (hsecond : IsField second) :
    IsField (first ++ second) := by
  constructor
  · simp [hfirst.nonempty]
  · rw [String.toList_append, List.all_append, hfirst.chars, hsecond.chars]
    rfl

theorem isField_mnemonic (instruction : Instruction) : IsField instruction.mnemonic := by
  cases instruction <;> exact ⟨by decide, by decide⟩

theorem isField_operand (operand : Operand) : IsField operand.render := by
  cases operand with
  | register index => exact IsField.append ⟨by decide, by decide⟩ (isField_decimal _)
  | byte value => exact isField_decimal _
  | word value => exact IsField.append ⟨by decide, by decide⟩ (isField_hex 0 _)

theorem IsField.notMem {text : String} (h : IsField text) {c : Char} (hc : isFieldChar c = false) :
    c ∉ text.toList := by
  intro hmem
  rw [h.of_mem hmem] at hc
  cases hc

theorem IsField.append_inj {x y : String} {s t : List Char} (hx : IsField x) (hy : IsField y)
    (hs : ∀ c ∈ s.head?, isFieldChar c = false) (ht : ∀ c ∈ t.head?, isFieldChar c = false)
    (h : x.toList ++ s = y.toList ++ t) : x = y ∧ s = t := by
  obtain ⟨hxy, hst⟩ := append_inj_of_run (fun c => hx.of_mem) (fun c => hy.of_mem)
    (fun c hc => by simp [hs c hc]) (fun c hc => by simp [ht c hc]) h
  exact ⟨String.toList_inj.mp hxy, hst⟩

variable {sep : String}

def separated (sep : String) (fields : List String) : List Char :=
  fields.flatMap fun field => sep.toList ++ field.toList

theorem separated_cons (sep first : String) (rest : List String) :
    separated sep (first :: rest) = sep.toList ++ (sep.intercalate (first :: rest)).toList := by
  induction rest generalizing first with
  | nil => simp [separated]
  | cons second rest ih =>
    have hrest := ih second
    simp only [separated, List.flatMap_cons] at hrest ⊢
    rw [hrest]
    simp

def Separates (sep : String) : Prop := ∃ c rest, sep.toList = c :: rest ∧ isFieldChar c = false

theorem separates_colon : Separates ": " := ⟨':', [' '], rfl, by decide⟩

theorem separates_comma : Separates ", " := ⟨',', [' '], rfl, by decide⟩

theorem separates_space : Separates " " := ⟨' ', [], rfl, by decide⟩

theorem Separates.head?_append (hsep : Separates sep) (rest : List Char) :
    ∀ c ∈ (sep.toList ++ rest).head?, isFieldChar c = false := by
  obtain ⟨c, more, hchars, hc⟩ := hsep
  simp [hchars, hc]

theorem Separates.head?_separated (hsep : Separates sep) (fields : List String) :
    ∀ c ∈ (separated sep fields).head?, isFieldChar c = false := by
  cases fields with
  | nil => simp [separated]
  | cons field fields =>
    rw [separated_cons]
    exact hsep.head?_append _

theorem separated_injective (hsep : Separates sep) {xs ys : List String}
    (hx : ∀ x ∈ xs, IsField x) (hy : ∀ y ∈ ys, IsField y)
    (h : separated sep xs = separated sep ys) : xs = ys := by
  have hnonempty : sep.toList ≠ [] := by
    obtain ⟨c, rest, hchars, -⟩ := hsep
    simp [hchars]
  induction xs generalizing ys with
  | nil =>
    cases ys with
    | nil => rfl
    | cons y ys => simp [separated, hnonempty] at h
  | cons x xs ih =>
    cases ys with
    | nil => simp [separated, hnonempty] at h
    | cons y ys =>
      rw [List.forall_mem_cons] at hx hy
      simp only [separated, List.flatMap_cons, List.append_assoc, List.append_cancel_left_eq] at h
      obtain ⟨rfl, hrest⟩ :=
        hx.1.append_inj hy.1 (hsep.head?_separated xs) (hsep.head?_separated ys) h
      rw [ih hx.2 hy.2 hrest]

theorem intercalate_eq_empty_iff {xs : List String} (hx : ∀ x ∈ xs, IsField x) :
    sep.intercalate xs = "" ↔ xs = [] := by
  cases xs with
  | nil => simp
  | cons x xs =>
    have hnonempty : x ≠ "" := by simpa using (hx x List.mem_cons_self).nonempty
    cases xs <;> simp [hnonempty]

theorem intercalate_injective (hsep : Separates sep) {xs ys : List String}
    (hx : ∀ x ∈ xs, IsField x) (hy : ∀ y ∈ ys, IsField y)
    (h : sep.intercalate xs = sep.intercalate ys) : xs = ys := by
  have hempty : xs = [] ↔ ys = [] := by
    rw [← intercalate_eq_empty_iff hx, h, intercalate_eq_empty_iff hy]
  cases xs with
  | nil => exact (hempty.mp rfl).symm
  | cons x xs =>
    cases ys with
    | nil => cases hempty.mpr rfl
    | cons y ys =>
      apply separated_injective hsep hx hy
      rw [separated_cons, separated_cons, h]

end Listing

namespace Operand

/-- The kind of an operand, told from its text: registers start with a letter, words have a mark. -/
def kindOf (text : String) : OperandKind :=
  if text.toList.head? = some 'r' then .register
  else if 'x' ∈ text.toList then .word
  else .byte

theorem kindOf_render (operand : Operand) : kindOf operand.render = operand.kind := by
  cases operand with
  | register index => simp [kindOf, render, kind]
  | byte value =>
    have hletter : 'x' ∉ (Numeral.decimal value.toNat).toList := by
      rw [Numeral.decimal, String.toList_ofList]
      exact fun hmem => absurd (Numeral.isDigit_of_mem_decimalDigits hmem) (by decide)
    have hhead : (Numeral.decimal value.toNat).toList.head? ≠ some 'r' := by
      rw [Numeral.decimal, String.toList_ofList]
      exact Numeral.head?_decimalDigits_ne (by decide)
    simp [kindOf, render, kind, hletter, hhead]
  | word value => simp [kindOf, render, kind, Numeral.address]

theorem render_injective {operand other : Operand} (h : operand.render = other.render) :
    operand = other := by
  have hkind := congrArg kindOf h
  rw [kindOf_render, kindOf_render] at hkind
  cases operand <;> cases other <;> cases hkind
  case register.register index other =>
    have hindex := Numeral.decimal_injective ((String.append_right_inj _).mp h)
    rw [UInt8.toNat_inj.mp hindex]
  case byte.byte value other =>
    rw [UInt8.toNat_inj.mp (Numeral.decimal_injective h)]
  case word.word value other =>
    have hword := UInt64.toNat_inj.mp (Numeral.address_injective h)
    exact congrArg (fun word : UInt64 => Operand.word word.toInt64) hword

end Operand

namespace Decoded

open Listing

def operandText (operands : List Operand) : String :=
  match operands with
  | [] => ""
  | operands => " " ++ ", ".intercalate (operands.map Operand.render)

theorem render_eq (decoded : Decoded) :
    decoded.render = Numeral.hex 8 decoded.offset ++ ": " ++ decoded.instruction.mnemonic ++
      operandText decoded.operands := rfl

theorem operandText_cons (operand : Operand) (rest : List Operand) :
    operandText (operand :: rest) =
      " " ++ ", ".intercalate ((operand :: rest).map Operand.render) := rfl

theorem head?_operandText (operands : List Operand) :
    ∀ c ∈ (operandText operands).toList.head?, isFieldChar c = false := by
  cases operands with
  | nil => simp [operandText]
  | cons operand rest =>
    rw [operandText_cons, String.toList_append]
    exact separates_space.head?_append _

theorem operandText_eq_empty_iff {operands : List Operand} :
    operandText operands = "" ↔ operands = [] := by
  cases operands with
  | nil => simp [operandText]
  | cons operand rest => simp [operandText_cons]

theorem isField_map_render (operands : List Operand) :
    ∀ x ∈ operands.map Operand.render, IsField x := by
  simpa using fun operand _ => isField_operand operand

theorem operandText_injective {operands others : List Operand}
    (h : operandText operands = operandText others) : operands = others := by
  have hempty : operands = [] ↔ others = [] := by
    rw [← operandText_eq_empty_iff, h, operandText_eq_empty_iff]
  cases operands with
  | nil => exact (hempty.mp rfl).symm
  | cons operand rest =>
    cases others with
    | nil => cases hempty.mpr rfl
    | cons other others =>
      rw [operandText_cons, operandText_cons, String.append_right_inj] at h
      have htexts := intercalate_injective separates_comma (isField_map_render _)
        (isField_map_render _) h
      exact (List.map_inj_right fun _ _ => Operand.render_injective).mp htexts

theorem render_injective {decoded other : Decoded} (h : decoded.render = other.render) :
    decoded = other := by
  have hchars := congrArg String.toList h
  simp only [render_eq, String.toList_append, List.append_assoc] at hchars
  obtain ⟨hoffset, hchars⟩ := (isField_hex 8 _).append_inj (isField_hex 8 _)
    (separates_colon.head?_append _) (separates_colon.head?_append _) hchars
  obtain ⟨hmnemonic, hoperands⟩ := (isField_mnemonic _).append_inj (isField_mnemonic _)
    (head?_operandText _) (head?_operandText _) (List.append_cancel_left hchars)
  have hinstruction : decoded.instruction = other.instruction := by
    have hfound := congrArg Instruction.ofMnemonic? hmnemonic
    rwa [Instruction.ofMnemonic?_mnemonic, Instruction.ofMnemonic?_mnemonic, Option.some_inj] at hfound
  cases decoded
  cases other
  congr
  · exact Numeral.hex_injective hoffset
  · exact operandText_injective (String.toList_inj.mp hoperands)

end Decoded

namespace Listing

theorem isField_map_hex (bytes : List UInt8) :
    ∀ x ∈ bytes.map fun byte => Numeral.hex 2 byte.toNat, IsField x := by
  simpa using fun (byte : UInt8) _ => isField_hex 2 byte.toNat

theorem row_injective {offset other : Nat} {bytes others : List UInt8}
    (h : row offset bytes = row other others) : bytes = others := by
  have hchars := congrArg String.toList h
  simp only [row, String.toList_append, List.append_assoc] at hchars
  obtain ⟨-, hchars⟩ := (isField_hex 8 _).append_inj (isField_hex 8 _)
    (separates_colon.head?_append _) (separates_colon.head?_append _) hchars
  have htexts := intercalate_injective separates_space (isField_map_hex _) (isField_map_hex _)
    (String.toList_inj.mp (List.append_cancel_left hchars))
  exact (List.map_inj_right fun _ _ hbyte => UInt8.toNat_inj.mp (Numeral.hex_injective hbyte)).mp htexts

theorem rows_of_ne_nil {bytes : List UInt8} (h : bytes ≠ []) (offset : Nat) :
    rows offset bytes = row offset (bytes.take 16) :: rows (offset + 16) (bytes.drop 16) := by
  rw [rows, if_neg h]

theorem rows_eq_nil_iff {offset : Nat} {bytes : List UInt8} : rows offset bytes = [] ↔ bytes = [] := by
  rw [rows]
  split <;> simp_all

theorem rows_injective {offset other : Nat} {bytes others : List UInt8}
    (h : rows offset bytes = rows other others) : bytes = others := by
  have hempty : bytes = [] ↔ others = [] := by
    rw [← rows_eq_nil_iff, h, rows_eq_nil_iff]
  fun_induction rows offset bytes generalizing other others with
  | case1 offset => exact (hempty.mp rfl).symm
  | case2 offset bytes hne ih =>
    have hothers : others ≠ [] := fun hnil => hne (hempty.mpr hnil)
    rw [rows_of_ne_nil hothers] at h
    obtain ⟨hrow, hrest⟩ := List.cons.inj h
    have hdropped : bytes.drop 16 = others.drop 16 := by
      apply ih hrest
      rw [← rows_eq_nil_iff, hrest, rows_eq_nil_iff]
    rw [← List.take_append_drop 16 bytes, row_injective hrow, hdropped, List.take_append_drop]

theorem dataLines_of_ne_nil {bytes : List UInt8} (h : bytes ≠ []) (offset : Nat) :
    dataLines offset bytes =
      ("; data: " ++ Numeral.decimal bytes.length ++ " bytes at " ++ Numeral.address offset) ::
        rows offset bytes := if_neg h

theorem dataLines_eq_nil_iff {offset : Nat} {bytes : List UInt8} :
    dataLines offset bytes = [] ↔ bytes = [] := by
  unfold dataLines
  split <;> simp_all

theorem dataLines_injective {offset other : Nat} {bytes others : List UInt8}
    (h : dataLines offset bytes = dataLines other others) : bytes = others := by
  have hempty : bytes = [] ↔ others = [] := by
    rw [← dataLines_eq_nil_iff, h, dataLines_eq_nil_iff]
  by_cases hbytes : bytes = []
  · rw [hbytes, hempty.mp hbytes]
  · have hothers : others ≠ [] := fun hnil => hbytes (hempty.mpr hnil)
    rw [dataLines_of_ne_nil hbytes, dataLines_of_ne_nil hothers] at h
    exact rows_injective (List.cons.inj h).2

def OneLine (text : String) : Prop := '\n' ∉ text.toList

instance (text : String) : Decidable (OneLine text) :=
  inferInstanceAs (Decidable ('\n' ∉ text.toList))

theorem IsField.oneLine {text : String} (h : IsField text) : OneLine text := h.notMem (by decide)

@[simp] theorem oneLine_append {first second : String} :
    OneLine (first ++ second) ↔ OneLine first ∧ OneLine second := by
  simp [OneLine]

theorem oneLine_intercalate {sep : String} (hsep : OneLine sep) {xs : List String}
    (hxs : ∀ x ∈ xs, IsField x) : OneLine (sep.intercalate xs) := by
  induction xs with
  | nil => simp [OneLine]
  | cons x xs ih =>
    rw [List.forall_mem_cons] at hxs
    cases xs with
    | nil => simpa using hxs.1.oneLine
    | cons y ys => simp [hxs.1.oneLine, hsep, ih hxs.2]

theorem oneLine_render (decoded : Decoded) : OneLine decoded.render := by
  have hoperands : OneLine (Decoded.operandText decoded.operands) := by
    cases decoded.operands with
    | nil => decide
    | cons operand rest =>
      rw [Decoded.operandText_cons, oneLine_append]
      exact ⟨by decide, oneLine_intercalate (by decide) (Decoded.isField_map_render _)⟩
  simp only [decoded.render_eq, oneLine_append]
  exact ⟨⟨⟨(isField_hex 8 _).oneLine, by decide⟩, (isField_mnemonic _).oneLine⟩, hoperands⟩

theorem oneLine_row (offset : Nat) (bytes : List UInt8) : OneLine (row offset bytes) := by
  simp only [row, oneLine_append]
  exact ⟨⟨(isField_hex 8 _).oneLine, by decide⟩, oneLine_intercalate (by decide) (isField_map_hex _)⟩

theorem oneLine_rows (offset : Nat) (bytes : List UInt8) :
    ∀ line ∈ rows offset bytes, OneLine line := by
  fun_induction rows offset bytes with
  | case1 => simp
  | case2 offset bytes hne ih => exact List.forall_mem_cons.mpr ⟨oneLine_row _ _, ih⟩

theorem oneLine_dataLines (offset : Nat) (bytes : List UInt8) :
    ∀ line ∈ dataLines offset bytes, OneLine line := by
  by_cases hbytes : bytes = []
  · simp [dataLines_eq_nil_iff.mpr hbytes]
  · rw [dataLines_of_ne_nil hbytes, List.forall_mem_cons]
    refine ⟨?_, oneLine_rows offset bytes⟩
    simp only [oneLine_append, Numeral.address]
    exact ⟨⟨⟨by decide, (isField_decimal _).oneLine⟩, by decide⟩, by decide, (isField_hex 0 _).oneLine⟩

theorem join_lines_injective {lines others : List String} (hlines : ∀ line ∈ lines, OneLine line)
    (hothers : ∀ line ∈ others, OneLine line)
    (h : String.join (lines.map (· ++ "\n")) = String.join (others.map (· ++ "\n"))) :
    lines = others := by
  induction lines generalizing others with
  | nil =>
    cases others with
    | nil => rfl
    | cons other others => simp at h
  | cons line lines ih =>
    cases others with
    | nil => simp at h
    | cons other others =>
      rw [List.forall_mem_cons] at hlines hothers
      have hchars := congrArg String.toList h
      simp only [List.map_cons, String.join_cons, String.toList_append, List.append_assoc] at hchars
      have hrun {text : String} (h : OneLine text) : ∀ c ∈ text.toList, c ≠ '\n' :=
        fun c hc heq => h (heq ▸ hc)
      obtain ⟨hline, hrest⟩ := append_inj_of_run (hrun hlines.1) (hrun hothers.1) (by simp) (by simp)
        hchars
      rw [String.toList_inj.mp hline, ih hlines.2 hothers.2 (String.toList_inj.mp
        (List.append_cancel_left hrest))]

def IsComment (line : String) : Prop := line.toList.head? = some ';'

theorem not_isComment_render (decoded : Decoded) : ¬ IsComment decoded.render := by
  intro hcomment
  have hoffset := isField_hex 8 decoded.offset
  obtain ⟨c, rest, hchars⟩ := List.exists_cons_of_ne_nil hoffset.nonempty
  have hc : c = ';' := by simpa [IsComment, decoded.render_eq, hchars] using hcomment
  apply hoffset.notMem (by decide : isFieldChar ';' = false)
  simp [hchars, hc]

theorem head?_dataLines (offset : Nat) (bytes : List UInt8) :
    ∀ line ∈ (dataLines offset bytes).head?, ¬ ¬ IsComment line := by
  by_cases hbytes : bytes = []
  · simp [dataLines_eq_nil_iff.mpr hbytes]
  · simp [dataLines_of_ne_nil hbytes, IsComment]

end Listing

theorem Disassembly.isStream_leading (bytes : Array UInt8) :
    Decoded.IsStream 0 (bytes.toList.take (leading bytes).2) (leading bytes).1 ∧
      (leading bytes).2 ≤ bytes.size := by
  obtain ⟨read, list, hstream, hprefix, hend⟩ := sweepFrom_cases bytes 0 #[]
  rw [Nat.zero_add, Array.empty_append] at hend
  rw [List.drop_zero] at hprefix
  have hleading : leading bytes = (list, read.length) := by
    rcases hend with ⟨-, hsweep⟩ | ⟨fault, -, -, hsweep⟩ <;> simp [leading, hsweep]
  rw [hleading, ← List.prefix_iff_eq_take.mp hprefix]
  exact ⟨hstream, by simpa using hprefix.length_le⟩

namespace Image

open Listing

def listingLines (image : Image) : List String :=
  (Disassembly.leading image.code).1.map Decoded.render ++
    dataLines (Disassembly.leading image.code).2
      (image.bytes.extract (Disassembly.leading image.code).2 image.bytes.size).toList

theorem listing_eq (image : Image) :
    image.listing = String.join (image.listingLines.map (· ++ "\n")) := rfl

theorem oneLine_listingLines (image : Image) : ∀ line ∈ image.listingLines, OneLine line := by
  intro line hline
  rcases List.mem_append.mp hline with hline | hline
  · obtain ⟨decoded, -, rfl⟩ := List.mem_map.mp hline
    exact oneLine_render decoded
  · exact oneLine_dataLines _ _ line hline

theorem toList_bytes (image : Image) :
    image.bytes.toList = (Disassembly.leading image.code).1.flatMap Decoded.encode ++
      (image.bytes.extract (Disassembly.leading image.code).2 image.bytes.size).toList := by
  obtain ⟨hstream, hstop⟩ := Disassembly.isStream_leading image.code
  generalize (Disassembly.leading image.code).2 = stop at hstream hstop ⊢
  have hsize : stop ≤ image.codeSize := by
    simp only [code, Array.size_extract] at hstop
    omega
  have hcode : image.code.toList.take stop = image.bytes.toList.take stop := by
    simp [code, List.extract_eq_take_drop, List.take_take, Nat.min_eq_left hsize]
  rw [hstream.bytes_eq, hcode]
  simp [List.take_of_length_le]

end Image

open Image Listing in
/-- Images with one listing have the same bytes, wherever their code ends: the instructions can be read
back from their lines, and the other bytes from the rows. -/
theorem listing_tells_bytes (image other : Image) (h : image.listing = other.listing) :
    image.bytes = other.bytes := by
  rw [image.listing_eq, other.listing_eq] at h
  have hlines : image.listingLines = other.listingLines :=
    join_lines_injective image.oneLine_listingLines other.oneLine_listingLines h
  have hinstructions (image : Image) :
      ∀ line ∈ (Disassembly.leading image.code).1.map Decoded.render, ¬ IsComment line := by
    simpa using fun decoded _ => not_isComment_render decoded
  obtain ⟨hrendered, hdata⟩ := append_inj_of_run (hinstructions image) (hinstructions other)
    (head?_dataLines _ _) (head?_dataLines _ _) hlines
  have hleading : (Disassembly.leading image.code).1 = (Disassembly.leading other.code).1 :=
    (List.map_inj_right fun _ _ => Decoded.render_injective).mp hrendered
  apply Array.toList_inj.mp
  rw [image.toList_bytes, other.toList_bytes, hleading, dataLines_injective hdata]

theorem listing_tells_bytes_cutJump :
    Image.ofBytes Decoded.cutJump ≠ Image.ofCodeSize Decoded.cutJump 1 ∧
    (Image.ofBytes Decoded.cutJump).listing =
      "00000000: RET\n; data: 3 bytes at 0x1\n00000001: 0b 24 24\n" ∧
    (Image.ofBytes Decoded.cutJump).listing = (Image.ofCodeSize Decoded.cutJump 1).listing ∧
    (Image.ofBytes Decoded.cutJump).bytes = (Image.ofCodeSize Decoded.cutJump 1).bytes := by
  have hlisting : (Image.ofBytes Decoded.cutJump).listing =
      (Image.ofCodeSize Decoded.cutJump 1).listing := by
    decide +kernel
  exact ⟨by decide, by decide +kernel, hlisting, listing_tells_bytes _ _ hlisting⟩

end RegisterMachine
