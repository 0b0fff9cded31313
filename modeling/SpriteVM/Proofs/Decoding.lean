import SpriteVM.Instruction.Pattern
import SpriteVM.Machine.Basic

/-!
# Words and their instructions

`Instruction.Codes` says which words mean an instruction, and the decoder is the function of that
relation (`ofWord?_eq_some_iff`). A word can also be held against a pattern, nibble by nibble. One
that fits the pattern of an instruction means this instruction with its own operands
(`ofWord?_of_fits`), and the words that fit none of the thirty-five patterns are exactly those
without an instruction (`ofWord?_eq_none_iff`). Last, a decoded instruction has operands that its
fields can hold (`Instruction.InRange`), which is what keeps its accesses in range.
-/

namespace SpriteVM

open Numeral

/-! ## The relation of words and instructions -/

/-- The words that mean the skip on a condition. -/
def Condition.Codes (w : Word) : Condition → Prop
  | .equalByte x kk => w.family = 0x3 ∧ x = w.x ∧ kk = w.kk
  | .unequalByte x kk => w.family = 0x4 ∧ x = w.x ∧ kk = w.kk
  | .equal x y => w.family = 0x5 ∧ w.n = 0 ∧ x = w.x ∧ y = w.y
  | .unequal x y => w.family = 0x9 ∧ w.n = 0 ∧ x = w.x ∧ y = w.y
  | .keyDown x => w.family = 0xE ∧ w.kk.toNat = 0x9E ∧ x = w.x
  | .keyUp x => w.family = 0xE ∧ w.kk.toNat = 0xA1 ∧ x = w.x

/-- The words that mean an instruction. -/
def Instruction.Codes (w : Word) : Instruction → Prop
  | .sys nnn => w.family = 0x0 ∧ nnn = w.nnn ∧ nnn ≠ 0x0E0 ∧ nnn ≠ 0x0EE
  | .clear => w.family = 0x0 ∧ w.nnn = 0x0E0
  | .ret => w.family = 0x0 ∧ w.nnn = 0x0EE
  | .jump nnn => w.family = 0x1 ∧ nnn = w.nnn
  | .call nnn => w.family = 0x2 ∧ nnn = w.nnn
  | .skip c => c.Codes w
  | .loadByte x kk => w.family = 0x6 ∧ x = w.x ∧ kk = w.kk
  | .addByte x kk => w.family = 0x7 ∧ x = w.x ∧ kk = w.kk
  | .combine op x y => w.family = 0x8 ∧ Alu.ofNibble? w.n = some op ∧ x = w.x ∧ y = w.y
  | .loadIndex nnn => w.family = 0xA ∧ nnn = w.nnn
  | .jumpOffset nnn => w.family = 0xB ∧ nnn = w.nnn
  | .random x kk => w.family = 0xC ∧ x = w.x ∧ kk = w.kk
  | .draw x y n => w.family = 0xD ∧ x = w.x ∧ y = w.y ∧ n = w.n
  | .readDelay x => w.family = 0xF ∧ w.kk.toNat = 0x07 ∧ x = w.x
  | .waitKey x => w.family = 0xF ∧ w.kk.toNat = 0x0A ∧ x = w.x
  | .setDelay x => w.family = 0xF ∧ w.kk.toNat = 0x15 ∧ x = w.x
  | .setSound x => w.family = 0xF ∧ w.kk.toNat = 0x18 ∧ x = w.x
  | .addIndex x => w.family = 0xF ∧ w.kk.toNat = 0x1E ∧ x = w.x
  | .loadGlyph x => w.family = 0xF ∧ w.kk.toNat = 0x29 ∧ x = w.x
  | .storeDecimal x => w.family = 0xF ∧ w.kk.toNat = 0x33 ∧ x = w.x
  | .storeRegisters x => w.family = 0xF ∧ w.kk.toNat = 0x55 ∧ x = w.x
  | .loadRegisters x => w.family = 0xF ∧ w.kk.toNat = 0x65 ∧ x = w.x

namespace Instruction

/-! ## The decoder is the function of the relation -/

theorem codes_of_keyTest? {w : Word} {i : Instruction} (hf : w.family = 0xE)
    (h : keyTest? w.x w.kk.toNat = some i) : i.Codes w := by
  unfold keyTest? at h
  split at h
  · next hk => cases h; exact ⟨hf, hk, rfl⟩
  · next hk => cases h; exact ⟨hf, hk, rfl⟩
  · cases h

theorem codes_of_transfer? {w : Word} {i : Instruction} (hf : w.family = 0xF)
    (h : transfer? w.x w.kk.toNat = some i) : i.Codes w := by
  unfold transfer? at h
  split at h
  case h_10 => cases h
  all_goals
    next hk => cases h; exact ⟨hf, hk, rfl⟩

/-- A decoded word means its instruction. The cases are the families. -/
theorem codes_of_ofWord? {w : Word} {i : Instruction} (h : ofWord? w = some i) : i.Codes w := by
  unfold ofWord? at h
  split at h
  · next hf =>
    obtain rfl := Option.some.inj h
    by_cases hc : w.nnn = 0x0E0
    · rw [if_pos hc]
      exact ⟨hf, hc⟩
    · rw [if_neg hc]
      by_cases hr : w.nnn = 0x0EE
      · rw [if_pos hr]
        exact ⟨hf, hr⟩
      · rw [if_neg hr]
        exact ⟨hf, rfl, hc, hr⟩
  · next hf => cases h; exact ⟨hf, rfl⟩
  · next hf => cases h; exact ⟨hf, rfl⟩
  · next hf => cases h; exact ⟨hf, rfl, rfl⟩
  · next hf => cases h; exact ⟨hf, rfl, rfl⟩
  · next hf =>
    split at h
    · next hn => cases h; exact ⟨hf, hn, rfl, rfl⟩
    · cases h
  · next hf => cases h; exact ⟨hf, rfl, rfl⟩
  · next hf => cases h; exact ⟨hf, rfl, rfl⟩
  · next hf =>
    obtain ⟨op, hop, rfl⟩ := Option.map_eq_some_iff.1 h
    exact ⟨hf, hop, rfl, rfl⟩
  · next hf =>
    split at h
    · next hn => cases h; exact ⟨hf, hn, rfl, rfl⟩
    · cases h
  · next hf => cases h; exact ⟨hf, rfl⟩
  · next hf => cases h; exact ⟨hf, rfl⟩
  · next hf => cases h; exact ⟨hf, rfl, rfl⟩
  · next hf => cases h; exact ⟨hf, rfl, rfl, rfl⟩
  · next hf => exact codes_of_keyTest? hf h
  · next hf => exact codes_of_transfer? hf h
  · cases h

/-- A word that means an instruction is decoded to it. -/
theorem ofWord?_of_codes {w : Word} {i : Instruction} (h : i.Codes w) : ofWord? w = some i := by
  cases i with
  | sys nnn =>
    obtain ⟨hf, rfl, hc, hr⟩ := h
    simp [ofWord?, hf, hc, hr]
  | skip c => cases c <;> simp_all [Codes, Condition.Codes, ofWord?, keyTest?]
  | _ => simp_all [Codes, ofWord?, transfer?]

/-- The decoder reads exactly the relation. -/
theorem ofWord?_eq_some_iff {w : Word} {i : Instruction} : ofWord? w = some i ↔ i.Codes w :=
  ⟨codes_of_ofWord?, ofWord?_of_codes⟩

end Instruction

/-! ## Operands of a word -/

/-- The condition with the operands of a word in place of its own. -/
def Condition.fill (w : Word) : Condition → Condition
  | .equalByte .. => .equalByte w.x w.kk
  | .unequalByte .. => .unequalByte w.x w.kk
  | .equal .. => .equal w.x w.y
  | .unequal .. => .unequal w.x w.y
  | .keyDown _ => .keyDown w.x
  | .keyUp _ => .keyUp w.x

/-- The instruction with the operands of a word in place of its own. -/
def Instruction.fill (w : Word) : Instruction → Instruction
  | .sys _ => .sys w.nnn
  | .clear => .clear
  | .ret => .ret
  | .jump _ => .jump w.nnn
  | .call _ => .call w.nnn
  | .jumpOffset _ => .jumpOffset w.nnn
  | .skip c => .skip (c.fill w)
  | .loadByte .. => .loadByte w.x w.kk
  | .addByte .. => .addByte w.x w.kk
  | .random .. => .random w.x w.kk
  | .combine op .. => .combine op w.x w.y
  | .loadIndex _ => .loadIndex w.nnn
  | .addIndex _ => .addIndex w.x
  | .loadGlyph _ => .loadGlyph w.x
  | .draw .. => .draw w.x w.y w.n
  | .readDelay _ => .readDelay w.x
  | .waitKey _ => .waitKey w.x
  | .setDelay _ => .setDelay w.x
  | .setSound _ => .setSound w.x
  | .storeDecimal _ => .storeDecimal w.x
  | .storeRegisters _ => .storeRegisters w.x
  | .loadRegisters _ => .loadRegisters w.x

/-! ## Patterns -/

/-- The patterns of all instructions. -/
def Instruction.patterns : List String :=
  ["0nnn", "00E0", "00EE", "1nnn", "2nnn", "3xkk", "4xkk", "5xy0", "6xkk", "7xkk", "8xy0", "8xy1",
   "8xy2", "8xy3", "8xy4", "8xy5", "8xy6", "8xy7", "8xyE", "9xy0", "Annn", "Bnnn", "Cxkk", "Dxyn",
   "Ex9E", "ExA1", "Fx07", "Fx0A", "Fx15", "Fx18", "Fx1E", "Fx29", "Fx33", "Fx55", "Fx65"]

/-- The values of the characters that patterns are written in. -/
theorem hexValue?_characters :
    hexValue? '0' = some 0x0 ∧ hexValue? '1' = some 0x1 ∧ hexValue? '2' = some 0x2 ∧
    hexValue? '3' = some 0x3 ∧ hexValue? '4' = some 0x4 ∧ hexValue? '5' = some 0x5 ∧
    hexValue? '6' = some 0x6 ∧ hexValue? '7' = some 0x7 ∧ hexValue? '8' = some 0x8 ∧
    hexValue? '9' = some 0x9 ∧ hexValue? 'A' = some 0xA ∧ hexValue? 'B' = some 0xB ∧
    hexValue? 'C' = some 0xC ∧ hexValue? 'D' = some 0xD ∧ hexValue? 'E' = some 0xE ∧
    hexValue? 'F' = some 0xF ∧ hexValue? 'x' = none ∧ hexValue? 'y' = none ∧
    hexValue? 'n' = none ∧ hexValue? 'k' = none := by
  decide

namespace Word

/-- The nibbles of a word, the leading one first. -/
def nibbles (w : Word) : List Nat :=
  [w.family, w.x, w.y, w.n]

/-- Whether a word fits a pattern: wherever the pattern has a hexadecimal digit, the word has that
nibble. -/
def fits (w : Word) (pattern : String) : Bool :=
  (pattern.toList.zip w.nibbles).all fun (c, nibble) =>
    match hexValue? c with
    | some digit => nibble == digit
    | none => true

theorem x_lt (w : Word) : w.x < 0x10 := by
  simp only [x]
  omega

theorem y_lt (w : Word) : w.y < 0x10 := by
  simp only [y]
  omega

theorem n_lt (w : Word) : w.n < 0x10 := by
  simp only [n]
  omega

theorem nnn_lt (w : Word) : w.nnn < 0x1000 := by
  simp only [nnn]
  omega

end Word

namespace Instruction

open Word

/-- A word that fits the pattern of an instruction means the instruction with its own operands. -/
theorem codes_fill_of_fits {w : Word} {i : Instruction} (hne : i.pattern ≠ "0nnn")
    (h : w.fits i.pattern) : (i.fill w).Codes w := by
  cases i with
  | sys nnn => exact absurd rfl hne
  | combine op x y =>
    cases op <;> simp [pattern, Alu.pattern, fits, nibbles, hexValue?_characters] at h <;>
      simp [fill, Codes, Alu.ofNibble?, h]
  | skip c =>
    cases c <;> simp [pattern, Condition.pattern, fits, nibbles, hexValue?_characters] at h <;>
      simp [fill, Condition.fill, Codes, Condition.Codes, toNat_kk, h]
  | _ =>
    simp [pattern, fits, nibbles, hexValue?_characters] at h
    simp [fill, Codes, nnn_eq, toNat_kk, h]

/-- Apart from the catch-all of family 0, a word is decoded as the pattern says that it fits. -/
theorem ofWord?_of_fits {w : Word} {i : Instruction} (hne : i.pattern ≠ "0nnn")
    (h : w.fits i.pattern) : ofWord? w = some (i.fill w) :=
  ofWord?_of_codes (codes_fill_of_fits hne h)

theorem pattern_fill (w : Word) (i : Instruction) : (i.fill w).pattern = i.pattern := by
  cases i with
  | skip c => cases c <;> rfl
  | _ => rfl

/-- Every pattern is that of some instruction. -/
theorem exists_pattern_eq : ∀ p ∈ patterns, ∃ i : Instruction, i.pattern = p := by
  simp only [patterns, List.forall_mem_cons]
  exact ⟨⟨.sys 0, rfl⟩, ⟨.clear, rfl⟩, ⟨.ret, rfl⟩, ⟨.jump 0, rfl⟩, ⟨.call 0, rfl⟩,
    ⟨.skip (.equalByte 0 0), rfl⟩, ⟨.skip (.unequalByte 0 0), rfl⟩, ⟨.skip (.equal 0 0), rfl⟩,
    ⟨.loadByte 0 0, rfl⟩, ⟨.addByte 0 0, rfl⟩, ⟨.combine .copy 0 0, rfl⟩, ⟨.combine .or 0 0, rfl⟩,
    ⟨.combine .and 0 0, rfl⟩, ⟨.combine .xor 0 0, rfl⟩, ⟨.combine .add 0 0, rfl⟩,
    ⟨.combine .sub 0 0, rfl⟩, ⟨.combine .shiftRight 0 0, rfl⟩, ⟨.combine .subFrom 0 0, rfl⟩,
    ⟨.combine .shiftLeft 0 0, rfl⟩, ⟨.skip (.unequal 0 0), rfl⟩, ⟨.loadIndex 0, rfl⟩,
    ⟨.jumpOffset 0, rfl⟩, ⟨.random 0 0, rfl⟩, ⟨.draw 0 0 0, rfl⟩, ⟨.skip (.keyDown 0), rfl⟩,
    ⟨.skip (.keyUp 0), rfl⟩, ⟨.readDelay 0, rfl⟩, ⟨.waitKey 0, rfl⟩, ⟨.setDelay 0, rfl⟩,
    ⟨.setSound 0, rfl⟩, ⟨.addIndex 0, rfl⟩, ⟨.loadGlyph 0, rfl⟩, ⟨.storeDecimal 0, rfl⟩,
    ⟨.storeRegisters 0, rfl⟩, ⟨.loadRegisters 0, rfl⟩, fun _ h => absurd h List.not_mem_nil⟩

/-- A word that fits a pattern has an instruction. It is the one of that pattern, except that two
words of the pattern `0nnn` have an instruction of their own. -/
theorem exists_of_fits {w : Word} {p : String} (hp : p ∈ patterns) (h : w.fits p) :
    ∃ i, ofWord? w = some i ∧ (p = "0nnn" ∨ i.pattern = p) := by
  by_cases hne : p = "0nnn"
  -- the catch-all fits every word of family 0, also those with an instruction of their own
  · subst hne
    simp [fits, nibbles, hexValue?_characters] at h
    simp [ofWord?, h]
  · obtain ⟨i, rfl⟩ := exists_pattern_eq p hp
    exact ⟨i.fill w, ofWord?_of_fits hne h, .inr (pattern_fill w i)⟩

/-- A word fits the pattern of its instruction. -/
theorem fits_of_codes {w : Word} {i : Instruction} (h : i.Codes w) : w.fits i.pattern := by
  have hx := w.x_lt
  have hy := w.y_lt
  have hn := w.n_lt
  cases i with
  | clear | ret =>
    -- a fixed address fixes its three nibbles
    obtain ⟨hf, hnnn⟩ := h
    rw [nnn_eq] at hnnn
    simp [pattern, fits, nibbles, hexValue?_characters, hf]
    omega
  | combine op x y =>
    obtain ⟨hf, hop, -, -⟩ := h
    cases op <;> simp [pattern, Alu.pattern, fits, nibbles, hexValue?_characters, hf] <;>
      (unfold Alu.ofNibble? at hop; split at hop <;> simp_all)
  | skip c =>
    cases c with
    | keyDown x | keyUp x =>
      obtain ⟨hf, hkk, -⟩ := h
      rw [toNat_kk] at hkk
      simp [pattern, Condition.pattern, fits, nibbles, hexValue?_characters, hf]
      omega
    | _ =>
      simp_all [pattern, Codes, Condition.Codes, Condition.pattern, fits, nibbles,
        hexValue?_characters]
  | readDelay x | waitKey x | setDelay x | setSound x | addIndex x | loadGlyph x | storeDecimal x
  | storeRegisters x | loadRegisters x =>
    obtain ⟨hf, hkk, -⟩ := h
    rw [toNat_kk] at hkk
    simp [pattern, fits, nibbles, hexValue?_characters, hf]
    omega
  | _ => simp_all [pattern, Codes, fits, nibbles, hexValue?_characters]

theorem pattern_mem_patterns (i : Instruction) : i.pattern ∈ patterns := by
  cases i with
  | skip c => cases c <;> simp [pattern, Condition.pattern, patterns]
  | combine op x y => cases op <;> simp [pattern, Alu.pattern, patterns]
  | _ => simp [pattern, patterns]

theorem pattern_eq_call {i : Instruction} : i.pattern = "2nnn" ↔ ∃ nnn, i = .call nnn := by
  cases i with
  | skip c => cases c <;> simp [pattern, Condition.pattern]
  | combine op x y => cases op <;> simp [pattern, Alu.pattern]
  | _ => simp [pattern]

theorem pattern_eq_ret {i : Instruction} : i.pattern = "00EE" ↔ i = .ret := by
  cases i with
  | skip c => cases c <;> simp [pattern, Condition.pattern]
  | combine op x y => cases op <;> simp [pattern, Alu.pattern]
  | _ => simp [pattern]

/-- Exactly the words that fit no pattern have no instruction. -/
theorem ofWord?_eq_none_iff {w : Word} : ofWord? w = none ↔ ∀ p ∈ patterns, ¬ w.fits p := by
  constructor
  · intro h p hp hfits
    obtain ⟨i, hi, -⟩ := exists_of_fits hp hfits
    rw [h] at hi
    cases hi
  · intro h
    cases hi : ofWord? w with
    | none => rfl
    | some i =>
      exact absurd (fits_of_codes (codes_of_ofWord? hi)) (h i.pattern (pattern_mem_patterns i))

/-- Apart from the catch-all of family 0, a decoded word fits just the pattern of its
instruction. -/
theorem fits_iff_pattern_eq {w : Word} {i : Instruction} {p : String} (h : ofWord? w = some i)
    (hp : p ∈ patterns) (hne : p ≠ "0nnn") : w.fits p ↔ i.pattern = p := by
  constructor
  · intro hfits
    obtain ⟨j, hj, hpat⟩ := exists_of_fits hp hfits
    obtain rfl := Option.some.inj (h.symm.trans hj)
    exact hpat.resolve_left hne
  · rintro rfl
    exact fits_of_codes (codes_of_ofWord? h)

/-- A decoded word fits the pattern of an instruction if it means this one with its own operands. -/
theorem fits_iff_eq_fill {w : Word} {i j : Instruction} (h : ofWord? w = some i)
    (hne : j.pattern ≠ "0nnn") : w.fits j.pattern ↔ i = j.fill w := by
  constructor
  · intro hfits
    exact Option.some.inj (h.symm.trans (ofWord?_of_fits hne hfits))
  · rintro rfl
    rw [← pattern_fill w j]
    exact fits_of_codes (codes_of_ofWord? h)

/-- The words that wait for a key. -/
theorem ofWord?_eq_waitKey {w : Word} {r : Nat} :
    ofWord? w = some (.waitKey r) ↔ w.fits "Fx0A" ∧ w.x = r := by
  constructor
  · intro h
    have hc := codes_of_ofWord? h
    exact ⟨fits_of_codes hc, hc.2.2.symm⟩
  · rintro ⟨hfits, rfl⟩
    exact ofWord?_of_fits (i := .waitKey 0) (by simp [pattern]) hfits

/-- Apart from that catch-all, a word fits one pattern at most. -/
theorem pattern_unique {w : Word} {p q : String} (hp : p ∈ patterns) (hq : q ∈ patterns)
    (hp' : p ≠ "0nnn") (hq' : q ≠ "0nnn") (h : w.fits p) (h' : w.fits q) : p = q := by
  obtain ⟨i, hi, -⟩ := exists_of_fits hp h
  rw [← (fits_iff_pattern_eq hi hp hp').1 h, (fits_iff_pattern_eq hi hq hq').1 h']

end Instruction

/-! ## Operands in range -/

/-- The operands of a condition name registers. -/
def Condition.InRange : Condition → Prop
  | .equalByte x _ | .unequalByte x _ | .keyDown x | .keyUp x => x < 16
  | .equal x y | .unequal x y => x < 16 ∧ y < 16

namespace Instruction

/-- The operands of an instruction name registers, a count below 16 or an address in memory. -/
def InRange : Instruction → Prop
  | .clear | .ret => True
  | .sys nnn | .jump nnn | .call nnn | .jumpOffset nnn | .loadIndex nnn => nnn < memorySize
  | .skip c => c.InRange
  | .loadByte x _ | .addByte x _ | .random x _ | .addIndex x | .loadGlyph x | .readDelay x
  | .waitKey x | .setDelay x | .setSound x | .storeDecimal x | .storeRegisters x
  | .loadRegisters x => x < 16
  | .combine _ x y => x < 16 ∧ y < 16
  | .draw x y n => x < 16 ∧ y < 16 ∧ n < 16

/-- The operands that a word carries are in range. -/
theorem inRange_of_ofWord? {w : Word} {i : Instruction} (h : ofWord? w = some i) : i.InRange := by
  have hx := w.x_lt
  have hy := w.y_lt
  have hn := w.n_lt
  have hnnn : w.nnn < memorySize := w.nnn_lt
  have hc := codes_of_ofWord? h
  cases i with
  | clear | ret => trivial
  | sys nnn => exact hc.2.1 ▸ hnnn
  | jump nnn | call nnn | jumpOffset nnn | loadIndex nnn => exact hc.2 ▸ hnnn
  | loadByte x kk | addByte x kk | random x kk => exact hc.2.1 ▸ hx
  | combine op x y => exact ⟨hc.2.2.1 ▸ hx, hc.2.2.2 ▸ hy⟩
  | draw x y n => exact ⟨hc.2.1 ▸ hx, hc.2.2.1 ▸ hy, hc.2.2.2 ▸ hn⟩
  | skip c =>
    cases c with
    | equalByte x kk | unequalByte x kk => exact hc.2.1 ▸ hx
    | equal x y | unequal x y => exact ⟨hc.2.2.1 ▸ hx, hc.2.2.2 ▸ hy⟩
    | keyDown x | keyUp x => exact hc.2.2 ▸ hx
  | readDelay x | waitKey x | setDelay x | setSound x | addIndex x | loadGlyph x | storeDecimal x
  | storeRegisters x | loadRegisters x => exact hc.2.2 ▸ hx

end Instruction

end SpriteVM
