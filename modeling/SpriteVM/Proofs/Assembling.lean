import Mathlib.Data.List.SplitBy
import SpriteVM.Fetch
import SpriteVM.Proofs.Decoding

/-!
# Assembling

An instruction is put back into a word by its pattern: the hexadecimal digits of the pattern stay,
and its wildcards take up the operands in order. `Slot.ofPattern` reads a pattern as a list of
places, `Slot.fill` writes operands into them and `Instruction.assemble` makes a word of the result.

The link to the decoder is that a word means an instruction just if its nibbles are the assembled
ones (`codes_iff_nibbles`). The two words `00E0` and `00EE` stand apart, as they fit the pattern of
the native routines and mean something else. `decode_reads_patterns` puts both directions together.
-/

namespace SpriteVM

open Numeral

/-! ## Places of a pattern -/

/-- A place of a pattern. -/
inductive Slot where
  /-- a nibble that all words of the pattern have -/
  | fixed (nibble : Nat)
  /-- the nibbles of an operand -/
  | operand (width : Nat)
  deriving DecidableEq, Repr

namespace Slot

/-- The places of a pattern: each hexadecimal digit is one, and so is each run of one wildcard. -/
def ofPattern (pattern : String) : List Slot :=
  (pattern.toList.splitBy (· == ·)).flatMap fun run =>
    match run.mapM hexValue? with
    | some digits => digits.map .fixed
    | none => [.operand run.length]

/-- The number of nibbles of a place. -/
def width : Slot → Nat
  | .fixed _ => 1
  | .operand width => width

/-- The number of nibbles of a list of places. -/
def widths : List Slot → Nat
  | [] => 0
  | slot :: slots => slot.width + widths slots

/-- Whether a place asks for a nibble that there is. -/
def isNibble : Slot → Bool
  | .fixed nibble => nibble < 0x10
  | .operand _ => true

/-- The lowest nibbles of a number, the highest of them first. -/
def lowNibbles : Nat → Nat → List Nat
  | 0, _ => []
  | width + 1, v => lowNibbles width (v / 0x10) ++ [v % 0x10]

/-- The nibbles of a word with the given places, where each operand takes up the next number. -/
def fill : List Slot → List Nat → List Nat
  | [], _ => []
  | .fixed nibble :: slots, operands => nibble :: fill slots operands
  | .operand width :: slots, operands =>
    lowNibbles width (operands.headD 0) ++ fill slots operands.tail

theorem length_lowNibbles (width v : Nat) : (lowNibbles width v).length = width := by
  induction width generalizing v with
  | zero => rfl
  | succ width ih => rw [lowNibbles, List.length_append, ih, List.length_singleton]

theorem lt_of_mem_lowNibbles {width v d : Nat} (h : d ∈ lowNibbles width v) : d < 0x10 := by
  induction width generalizing v with
  | zero => cases h
  | succ width ih =>
    rcases List.mem_append.1 h with h | h
    · exact ih h
    · rw [List.mem_singleton.1 h]
      exact Nat.mod_lt _ (by decide)

/-- Whatever is written into them, places have as many nibbles as they are wide. -/
theorem length_fill (slots : List Slot) (operands : List Nat) :
    (fill slots operands).length = widths slots := by
  induction slots generalizing operands with
  | nil => rfl
  | cons slot slots ih =>
    rw [widths]
    cases slot with
    | fixed nibble => rw [fill, List.length_cons, ih, width, Nat.add_comm]
    | operand w => rw [fill, List.length_append, length_lowNibbles, ih, width]

/-- Whatever is written into places, only nibbles come of it. -/
theorem lt_of_mem_fill {slots : List Slot} {operands : List Nat} {d : Nat}
    (hslots : ∀ slot ∈ slots, slot.isNibble) (h : d ∈ fill slots operands) : d < 0x10 := by
  induction slots generalizing operands with
  | nil => cases h
  | cons slot slots ih =>
    have hrest : ∀ s ∈ slots, s.isNibble := fun s hs => hslots s (List.mem_cons_of_mem _ hs)
    cases slot with
    | fixed nibble =>
      rcases List.mem_cons.1 h with rfl | h
      · exact of_decide_eq_true (hslots _ (List.mem_cons_self ..))
      · exact ih hrest h
    | operand w =>
      rcases List.mem_append.1 h with h | h
      · exact lt_of_mem_lowNibbles h
      · exact ih hrest h

end Slot

/-! ## Words of nibbles -/

namespace Word

/-- The word of four nibbles, the leading one first. -/
def ofNibbles (nibbles : List Nat) : Word :=
  UInt16.ofNat (value 0x10 nibbles)

/-- A word is made up of its nibbles. -/
theorem ofNibbles_nibbles (w : Word) : ofNibbles w.nibbles = w := by
  have hlt := w.toNat_lt
  rw [toNat_eq] at hlt
  refine UInt16.toNat_inj.1 ?_
  rw [toNat_eq w]
  simp only [ofNibbles, nibbles, value, List.foldl_cons, List.foldl_nil, UInt16.toNat_ofNat']
  omega

/-- Four nibbles can be read off the word that they make up. -/
theorem nibbles_ofNibbles {ns : List Nat} (hlength : ns.length = 4) (hns : ∀ d ∈ ns, d < 0x10) :
    (ofNibbles ns).nibbles = ns := by
  obtain ⟨a, b, c, d, rfl⟩ : ∃ a b c d, ns = [a, b, c, d] := by
    match ns, hlength with
    | [a, b, c, d], _ => exact ⟨a, b, c, d, rfl⟩
  simp only [List.forall_mem_cons, List.not_mem_nil, false_implies, implies_true, and_true] at hns
  obtain ⟨ha, hb, hc, hd⟩ := hns
  have htoNat : (ofNibbles [a, b, c, d]).toNat = a * 0x1000 + b * 0x100 + c * 0x10 + d := by
    simp only [ofNibbles, value, List.foldl_cons, List.foldl_nil, UInt16.toNat_ofNat']
    omega
  simp only [nibbles, family, x, y, n, htoNat, List.cons.injEq, and_true]
  omega

/-- An operand is the last byte of a word if the last two nibbles make it up. -/
theorem eq_kk_iff {w : Word} {kk : UInt8} : kk = w.kk ↔ kk.toNat = w.y * 0x10 + w.n := by
  rw [← UInt8.toNat_inj, toNat_kk]

end Word

/-- The last nibble of the words of a register-to-register operation. -/
def Alu.nibble : Alu → Nat
  | .copy => 0x0
  | .or => 0x1
  | .and => 0x2
  | .xor => 0x3
  | .add => 0x4
  | .sub => 0x5
  | .shiftRight => 0x6
  | .subFrom => 0x7
  | .shiftLeft => 0xE

theorem Alu.ofNibble?_eq_some {op : Alu} {n : Nat} : ofNibble? n = some op ↔ n = op.nibble := by
  constructor
  · intro h
    unfold ofNibble? at h
    split at h <;> cases h <;> rfl
  · rintro rfl
    cases op <;> rfl

namespace Instruction

open Word

/-! ## Assembled instructions -/

/-- The nibbles of an instruction: its operands in the wildcards of its pattern. -/
def assembledNibbles (i : Instruction) : List Nat :=
  Slot.fill (Slot.ofPattern i.pattern) i.operands

/-- The word of an instruction. -/
def assemble (i : Instruction) : Word :=
  ofNibbles i.assembledNibbles

/-- Every pattern has places for four nibbles. -/
theorem width_of_mem_patterns :
    ∀ p ∈ patterns, Slot.widths (Slot.ofPattern p) = 4 ∧
      ∀ slot ∈ Slot.ofPattern p, slot.isNibble := by
  decide

/-- The assembled nibbles are those of the assembled word. -/
theorem nibbles_assemble (i : Instruction) : i.assemble.nibbles = i.assembledNibbles := by
  obtain ⟨hwidth, hslots⟩ := width_of_mem_patterns i.pattern i.pattern_mem_patterns
  exact nibbles_ofNibbles ((Slot.length_fill _ _).trans hwidth) fun d => Slot.lt_of_mem_fill hslots

/-- A word means an instruction just if it has its nibbles. Each case compares the fields that the
decoder reads with the nibbles that the pattern has places for. -/
theorem codes_iff_nibbles {w : Word} {i : Instruction} (hi : i.InRange) (hclear : i ≠ .sys 0x0E0)
    (hret : i ≠ .sys 0x0EE) : i.Codes w ↔ w.nibbles = i.assembledNibbles := by
  have hx := w.x_lt
  have hy := w.y_lt
  have hn := w.n_lt
  cases i with
  | combine op x y =>
    obtain ⟨hxr, hyr⟩ := hi
    cases op <;>
      simp [Codes, Alu.ofNibble?_eq_some, Alu.nibble, assembledNibbles, pattern, Alu.pattern,
        operands, Slot.ofPattern, List.splitBy, List.splitBy.loop, hexValue?_characters, Slot.fill,
        Slot.lowNibbles, nibbles] <;>
      omega
  | skip c =>
    cases c with
    | equalByte x kk | unequalByte x kk =>
      have hkk := kk.toNat_lt
      have hxr : x < 16 := hi
      simp [Codes, Condition.Codes, assembledNibbles, pattern, Condition.pattern, operands,
        Condition.operands, Slot.ofPattern, List.splitBy, List.splitBy.loop, hexValue?_characters,
        Slot.fill, Slot.lowNibbles, nibbles, eq_kk_iff]
      omega
    | equal x y | unequal x y =>
      obtain ⟨hxr, hyr⟩ := hi
      simp [Codes, Condition.Codes, assembledNibbles, pattern, Condition.pattern, operands,
        Condition.operands, Slot.ofPattern, List.splitBy, List.splitBy.loop, hexValue?_characters,
        Slot.fill, Slot.lowNibbles, nibbles]
      omega
    | keyDown x | keyUp x =>
      have hxr : x < 16 := hi
      simp [Codes, Condition.Codes, assembledNibbles, pattern, Condition.pattern, operands,
        Condition.operands, Slot.ofPattern, List.splitBy, List.splitBy.loop, hexValue?_characters,
        Slot.fill, Slot.lowNibbles, nibbles, toNat_kk]
      omega
  | loadByte x kk | addByte x kk | random x kk =>
    have hkk := kk.toNat_lt
    have hxr : x < 16 := hi
    simp [Codes, assembledNibbles, pattern, operands, Slot.ofPattern, List.splitBy,
      List.splitBy.loop, hexValue?_characters, Slot.fill, Slot.lowNibbles, nibbles, eq_kk_iff]
    omega
  | sys nnn =>
    have hnnn : nnn < 0x1000 := hi
    simp [Codes, assembledNibbles, pattern, operands, Slot.ofPattern, List.splitBy,
      List.splitBy.loop, hexValue?_characters, Slot.fill, Slot.lowNibbles, nibbles,
      nnn_eq] at hclear hret ⊢
    omega
  | _ =>
    simp only [InRange, memorySize] at hi
    simp [Codes, assembledNibbles, pattern, operands, Slot.ofPattern, List.splitBy,
      List.splitBy.loop, hexValue?_characters, Slot.fill, Slot.lowNibbles, nibbles, nnn_eq,
      toNat_kk]
    omega

/-- A decoded word is assembled from its instruction again. -/
theorem assemble_of_ofWord? {w : Word} {i : Instruction} (h : ofWord? w = some i) :
    i.assemble = w := by
  have hcodes := codes_of_ofWord? h
  have hi := inRange_of_ofWord? h
  have hclear : i ≠ .sys 0x0E0 := by
    rintro rfl
    exact hcodes.2.2.1 rfl
  have hret : i ≠ .sys 0x0EE := by
    rintro rfl
    exact hcodes.2.2.2 rfl
  rw [assemble, ← (codes_iff_nibbles hi hclear hret).1 hcodes, ofNibbles_nibbles]

/-- An assembled instruction is decoded to itself, apart from the two routines whose words have an
instruction of their own. -/
theorem ofWord?_assemble {i : Instruction} (hi : i.InRange) (hclear : i ≠ .sys 0x0E0)
    (hret : i ≠ .sys 0x0EE) : ofWord? i.assemble = some i :=
  ofWord?_of_codes ((codes_iff_nibbles hi hclear hret).2 i.nibbles_assemble)

/-! ## The choice among patterns -/

/-- The number of nibbles that a pattern leaves open. -/
def wildcards (pattern : String) : Nat :=
  pattern.toList.countP fun c => (hexValue? c).isNone

/-- Every pattern is the pattern of an instruction. -/
theorem mem_patterns_iff {p : String} : p ∈ patterns ↔ ∃ i : Instruction, i.pattern = p := by
  constructor
  · intro hp
    have hall : ∀ p ∈ patterns, ∃ i ∈ ([
        .sys 0, .clear, .ret, .jump 0, .call 0, .skip (.equalByte 0 0), .skip (.unequalByte 0 0),
        .skip (.equal 0 0), .loadByte 0 0, .addByte 0 0, .combine .copy 0 0, .combine .or 0 0,
        .combine .and 0 0, .combine .xor 0 0, .combine .add 0 0, .combine .sub 0 0,
        .combine .shiftRight 0 0, .combine .subFrom 0 0, .combine .shiftLeft 0 0,
        .skip (.unequal 0 0), .loadIndex 0, .jumpOffset 0, .random 0 0, .draw 0 0 0,
        .skip (.keyDown 0), .skip (.keyUp 0), .readDelay 0, .waitKey 0, .setDelay 0, .setSound 0,
        .addIndex 0, .loadGlyph 0, .storeDecimal 0, .storeRegisters 0, .loadRegisters 0] :
        List Instruction), i.pattern = p := by
      decide
    obtain ⟨i, -, hi⟩ := hall p hp
    exact ⟨i, hi⟩
  · rintro ⟨i, rfl⟩
    exact i.pattern_mem_patterns

/-- Of several patterns that a word fits, its instruction has the one with the fewest wildcards. The
only other one can be the catch-all of family 0. -/
theorem wildcards_lt {w : Word} {i : Instruction} {p : String} (h : ofWord? w = some i)
    (hp : p ∈ patterns) (hfits : w.fits p) (hne : p ≠ i.pattern) :
    wildcards i.pattern < wildcards p := by
  by_cases hall : p = "0nnn"
  · subst hall
    have hfamily : w.family = 0 := by simpa [fits, nibbles, hexValue?] using hfits
    have hcodes := codes_of_ofWord? h
    cases i with
    | sys nnn => exact absurd rfl hne
    | clear | ret => decide
    | skip c => cases c <;> exact absurd (hfamily.symm.trans hcodes.1) (by decide)
    | _ => exact absurd (hfamily.symm.trans hcodes.1) (by decide)
  · exact absurd ((fits_iff_pattern_eq h hp hall).1 hfits).symm hne

/-- **Decoding reads the patterns and loses nothing.** The patterns are those of the instructions. A
decoded word is assembled from its instruction again; it fits the pattern of that instruction, and
any other pattern that it fits has more wildcards. Decoding fails for the words that fit no pattern,
and always with the word itself. Conversely every instruction with operands in range is decoded from
the word that it is assembled to, except that two routines give way to `CLS` and `RET`. -/
theorem decode_reads_patterns :
    (patterns.length = 35 ∧ patterns.Nodup ∧
      ∀ p, p ∈ patterns ↔ ∃ i : Instruction, i.pattern = p) ∧
    (∀ w i, decode w = .ok i →
      i.assemble = w ∧ w.fits i.pattern ∧
        ∀ p ∈ patterns, w.fits p → p ≠ i.pattern → wildcards i.pattern < wildcards p) ∧
    (∀ w e, decode w = .error e ↔ e = .invalidWord w ∧ ∀ p ∈ patterns, ¬ w.fits p) ∧
    ∀ i : Instruction, i.InRange →
      decode i.assemble =
        .ok (if i = .sys 0x0E0 then .clear else if i = .sys 0x0EE then .ret else i) := by
  refine ⟨⟨by decide, by decide, fun p => mem_patterns_iff⟩, ?_, ?_, ?_⟩
  · intro w i h
    have hw := decode_eq_ok.1 h
    exact ⟨assemble_of_ofWord? hw, fits_of_codes (codes_of_ofWord? hw), fun p => wildcards_lt hw⟩
  · intro w e
    rw [decode_eq_error, ofWord?_eq_none_iff, and_comm]
  · intro i hi
    by_cases hclear : i = .sys 0x0E0
    · subst hclear
      exact decode_eq_ok.2 (by decide)
    by_cases hret : i = .sys 0x0EE
    · subst hret
      exact decode_eq_ok.2 (by decide)
    rw [if_neg hclear, if_neg hret]
    exact decode_eq_ok.2 (ofWord?_assemble hi hclear hret)

/-- A shift, whose second operand is of no use but is kept, and a routine at the place of `RET`. -/
theorem decode_reads_patterns_shift :
    decode 0x8AB6 = .ok (.combine .shiftRight 0xA 0xB) ∧
      assemble (.combine .shiftRight 0xA 0xB) = 0x8AB6 ∧
      (InRange (.sys 0x0EE) ∧ decode (assemble (.sys 0x0EE)) = .ok .ret) := by
  have hshift : decode 0x8AB6 = .ok (.combine .shiftRight 0xA 0xB) := decode_eq_ok.2 (by decide)
  have hrange : InRange (.sys 0x0EE) := show 0x0EE < memorySize by decide
  obtain ⟨-, hassemble, -, hdecode⟩ := decode_reads_patterns
  exact ⟨hshift, (hassemble _ _ hshift).1, hrange, hdecode _ hrange⟩

end Instruction

end SpriteVM
