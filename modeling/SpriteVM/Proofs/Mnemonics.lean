import SpriteVM.Proofs.Assembling
import SpriteVM.Proofs.Numbers

/-!
# Mnemonics tell instructions apart

Assembler text can be read: `Instruction.read?` takes it apart into a name and operands, with commas
for blanks, and looks up which instruction has this name with operands of these kinds. Its table of
instructions is its own. What it makes of a mnemonic is the instruction, except for the second
operand of a shift, which is not shown (`read?_mnemonic`).

So two instructions have one mnemonic only if they are one, or shifts of one register in one
direction (`mnemonic_unambiguous`).
-/

namespace SpriteVM

open Numeral

/-! ## Reading assembler text -/

/-- What may stand behind the name of an instruction. -/
inductive Operand where
  /-- a register -/
  | register (x : Nat)
  /-- a number with a prefix -/
  | number (n : Nat)
  /-- a number in decimal -/
  | count (n : Nat)
  /-- another word, such as the name of a timer -/
  | other (word : String)
  deriving DecidableEq, Repr

/-- The operand that a word stands for. -/
def Operand.read? (word : List Char) : Option Operand :=
  match unsigned? 10 word with
  | some n => some (.count n)
  | none =>
    match word with
    | 'V' :: digits => (unsigned? 16 digits).map .register
    | '0' :: 'x' :: digits => (unsigned? 16 digits).map .number
    | _ => some (.other (String.ofList word))

namespace Instruction

/-- The instruction with a name and operands. Nothing tells the second operand of a shift, so it is
taken as zero. -/
def ofParts? (name : String) (operands : List Operand) : Option Instruction :=
  match name, operands with
  | "SYS", [.number a] => some (.sys a)
  | "CLS", [] => some .clear
  | "RET", [] => some .ret
  | "JP", [.number a] => some (.jump a)
  | "CALL", [.number a] => some (.call a)
  | "JP", [.register 0, .number a] => some (.jumpOffset a)
  | "SE", [.register x, .number b] => some (.skip (.equalByte x (UInt8.ofNat b)))
  | "SNE", [.register x, .number b] => some (.skip (.unequalByte x (UInt8.ofNat b)))
  | "SE", [.register x, .register y] => some (.skip (.equal x y))
  | "SNE", [.register x, .register y] => some (.skip (.unequal x y))
  | "SKP", [.register x] => some (.skip (.keyDown x))
  | "SKNP", [.register x] => some (.skip (.keyUp x))
  | "LD", [.register x, .number b] => some (.loadByte x (UInt8.ofNat b))
  | "ADD", [.register x, .number b] => some (.addByte x (UInt8.ofNat b))
  | "RND", [.register x, .number b] => some (.random x (UInt8.ofNat b))
  | "LD", [.register x, .register y] => some (.combine .copy x y)
  | "OR", [.register x, .register y] => some (.combine .or x y)
  | "AND", [.register x, .register y] => some (.combine .and x y)
  | "XOR", [.register x, .register y] => some (.combine .xor x y)
  | "ADD", [.register x, .register y] => some (.combine .add x y)
  | "SUB", [.register x, .register y] => some (.combine .sub x y)
  | "SUBN", [.register x, .register y] => some (.combine .subFrom x y)
  | "SHR", [.register x] => some (.combine .shiftRight x 0)
  | "SHL", [.register x] => some (.combine .shiftLeft x 0)
  | "LD", [.other "I", .number a] => some (.loadIndex a)
  | "ADD", [.other "I", .register x] => some (.addIndex x)
  | "LD", [.other "F", .register x] => some (.loadGlyph x)
  | "DRW", [.register x, .register y, .count n] => some (.draw x y n)
  | "LD", [.register x, .other "DT"] => some (.readDelay x)
  | "LD", [.register x, .other "K"] => some (.waitKey x)
  | "LD", [.other "DT", .register x] => some (.setDelay x)
  | "LD", [.other "ST", .register x] => some (.setSound x)
  | "LD", [.other "B", .register x] => some (.storeDecimal x)
  | "LD", [.other "[I]", .register x] => some (.storeRegisters x)
  | "LD", [.register x, .other "[I]"] => some (.loadRegisters x)
  | _, _ => none

/-- The words of an assembler text, with commas for blanks. -/
def tokens (text : String) : List (List Char) :=
  Blank.words (text.toList.map fun c => if c = ',' then ' ' else c)

/-- The instruction that a text shows. -/
def read? (text : String) : Option Instruction :=
  match tokens text with
  | [] => none
  | name :: operands => (operands.mapM Operand.read?).bind (ofParts? (String.ofList name))

end Instruction

/-! ## Words of a mnemonic -/

/-- A text that is one word of a mnemonic. -/
def Plain (s : String) : Prop :=
  s.toList ≠ [] ∧ ∀ c ∈ s.toList, Blank.isBlank c = false ∧ c ≠ ','

-- checked on the characters of the text, not on all characters
instance (s : String) : Decidable (Plain s) :=
  @instDecidableAnd _ _ inferInstance (List.decidableBAll _ s.toList)

/-- A text is how an operand is shown. -/
def Shows (s : String) (p : Operand) : Prop :=
  Plain s ∧ Operand.read? s.toList = some p

instance (s : String) (p : Operand) : Decidable (Shows s p) :=
  inferInstanceAs (Decidable (_ ∧ _))

theorem Plain.isWord {s : String} (h : Plain s) : Blank.IsWord s.toList :=
  ⟨h.1, fun c hc => (h.2 c hc).1⟩

theorem plain_digits {base width n : Nat} (hb : 2 ≤ base) (hb' : base ≤ 16) :
    ∀ c ∈ padded base width n, Blank.isBlank c = false ∧ c ≠ ',' := by
  intro c hc
  refine ⟨Command.isBlank_of_mem_padded hb hb' c hc, ?_⟩
  rintro rfl
  obtain ⟨d, hd, hcomma⟩ := exists_digit_of_mem_padded hb hc
  have hvalue := hexValue?_digitChar (Nat.lt_of_lt_of_le hd hb')
  rw [← hcomma] at hvalue
  cases hvalue

theorem shows_registerName (x : Nat) : Shows (registerName x) (.register x) := by
  have htext : (registerName x).toList = 'V' :: padded 16 1 x := by
    rw [registerName, String.toList_append, hexDigits, String.toList_ofList, String.toList_ofList]
    rfl
  rw [Shows, Plain, htext]
  refine ⟨⟨List.cons_ne_nil _ _, ?_⟩, ?_⟩
  · exact List.forall_mem_cons.2 ⟨by decide, plain_digits (by decide) (by decide)⟩
  · have hnone : unsigned? 10 ('V' :: padded 16 1 x) = none :=
      unsigned?_eq_none_of_mem (List.mem_cons_self ..) (by decide)
    simp only [Operand.read?, hnone, unsigned?_padded (by decide : 2 ≤ 16) (by decide) 1 x,
      Option.map_some]

theorem shows_hex (width n : Nat) : Shows (hex width n) (.number n) := by
  rw [Shows, Plain, Command.toList_hex]
  refine ⟨⟨List.cons_ne_nil _ _, ?_⟩, ?_⟩
  · exact List.forall_mem_cons.2 ⟨by decide, List.forall_mem_cons.2 ⟨by decide,
      plain_digits (by decide) (by decide)⟩⟩
  · have hnone : unsigned? 10 ('0' :: 'x' :: padded 16 width n) = none :=
      unsigned?_eq_none_of_mem (c := 'x') (by simp) (by decide)
    simp only [Operand.read?, hnone, unsigned?_padded (by decide : 2 ≤ 16) (by decide) width n,
      Option.map_some]

theorem shows_decimal (n : Nat) : Shows (decimal n) (.count n) := by
  have hread := unsigned?_padded (by decide : 2 ≤ 10) (by decide) 0 n
  rw [Shows, Plain, decimal, String.toList_ofList]
  refine ⟨⟨?_, plain_digits (by decide) (by decide)⟩, ?_⟩
  · exact (unsigned?_eq_some.1 hread).1
  · simp only [Operand.read?, hread]

namespace Instruction

variable {a b c d : String} {p q r : Operand} {i : Instruction}

/-- A comma stands in no word. -/
theorem map_toList (h : Plain a) :
    (a.toList.map fun c => if c = ',' then ' ' else c) = a.toList :=
  (List.map_congr_left fun c hc => if_neg (h.2 c hc).2).trans (List.map_id _)

theorem tokens_of_plain (h : Plain a) : tokens a = [a.toList] := by
  rw [tokens, map_toList h, Blank.words_of_isWord h.isWord]

theorem tokens_blank (h : Plain a) (b : String) :
    tokens (a ++ " " ++ b) = a.toList :: tokens b := by
  have hblank : (" ".toList.map fun c => if c = ',' then ' ' else c) = [' '] := by decide
  rw [tokens, String.toList_append, String.toList_append, List.map_append, List.map_append,
    map_toList h, hblank, List.append_assoc, List.singleton_append,
    Blank.words_append_cons h.isWord (by decide), tokens]

theorem tokens_comma (h : Plain a) (b : String) :
    tokens (a ++ ", " ++ b) = a.toList :: tokens b := by
  have hcomma : (", ".toList.map fun c => if c = ',' then ' ' else c) = [' ', ' '] := by decide
  rw [tokens, String.toList_append, String.toList_append, List.map_append, List.map_append,
    map_toList h, hcomma, List.append_assoc, List.cons_append, List.singleton_append,
    Blank.words_append_cons h.isWord (by decide), Blank.words_cons_of_blank (by decide), tokens]

/-- A text is read as the parts that its words stand for. -/
theorem read?_of_tokens {text : String} {words : List (List Char)} {operands : List Operand}
    (h : tokens text = a.toList :: words) (hwords : words.mapM Operand.read? = some operands) :
    read? text = ofParts? a operands := by
  simp only [read?, h, hwords, Option.bind_some, String.ofList_toList]

theorem read?_oneOperand (a : String) {s : String} (hs : s = a ++ " ") (ha : Plain a)
    (hb : Shows b p) (h : ofParts? a [p] = some i) : read? (s ++ b) = some i := by
  rw [hs, ← h]
  refine read?_of_tokens (tokens_blank ha b) ?_
  rw [tokens_of_plain hb.1, List.mapM_cons, hb.2]
  rfl

theorem tokens_twoOperands (ha : Plain a) (hb : Plain b) (c : String) :
    tokens (twoOperands a b c) = a.toList :: b.toList :: tokens c := by
  have hsplit : twoOperands a b c = a ++ " " ++ (b ++ ", " ++ c) := by
    simp only [twoOperands, String.append_assoc]
  rw [hsplit, tokens_blank ha, tokens_comma hb]

theorem read?_twoOperands (ha : Plain a) (hb : Shows b p) (hc : Shows c q)
    (h : ofParts? a [p, q] = some i) : read? (twoOperands a b c) = some i := by
  rw [← h]
  refine read?_of_tokens (tokens_twoOperands ha hb.1 c) ?_
  rw [tokens_of_plain hc.1, List.mapM_cons, hb.2, List.mapM_cons, hc.2]
  rfl

theorem read?_threeOperands (ha : Plain a) (hb : Shows b p) (hc : Shows c q) (hd : Shows d r)
    (h : ofParts? a [p, q, r] = some i) : read? (twoOperands a b c ++ ", " ++ d) = some i := by
  have hsplit : twoOperands a b c ++ ", " ++ d = twoOperands a b (c ++ ", " ++ d) := by
    simp only [twoOperands, String.append_assoc]
  rw [hsplit, ← h]
  refine read?_of_tokens (tokens_twoOperands ha hb.1 _) ?_
  rw [tokens_comma hc.1, tokens_of_plain hd.1, List.mapM_cons, hb.2, List.mapM_cons, hc.2,
    List.mapM_cons, hd.2]
  rfl

/-- A byte is shown as a number. -/
theorem read?_byteText {f : UInt8 → Instruction} (ha : Plain a) (hb : Shows b p)
    (h : ∀ n, ofParts? a [p, .number n] = some (f (UInt8.ofNat n))) (kk : UInt8) :
    read? (twoOperands a b (byteText kk)) = some (f kk) := by
  refine read?_twoOperands ha hb (shows_hex 2 kk.toNat) ?_
  rw [h, UInt8.ofNat_toNat]

/-! ## What a mnemonic shows -/

/-- The instruction without the operand that its mnemonic does not show. -/
def shown : Instruction → Instruction
  | .combine op x y => .combine op x (if op.readsSecond then y else 0)
  | i => i

theorem read?_mnemonic_skip (c : Condition) : read? c.mnemonic = some (.skip c) := by
  cases c with
  | equalByte x kk =>
    exact @read?_byteText "SE" _ _ (fun kk => .skip (.equalByte x kk)) (by decide)
      (shows_registerName x) (fun _ => rfl) kk
  | unequalByte x kk =>
    exact @read?_byteText "SNE" _ _ (fun kk => .skip (.unequalByte x kk)) (by decide)
      (shows_registerName x) (fun _ => rfl) kk
  | equal x y | unequal x y =>
    exact read?_twoOperands (by decide) (shows_registerName x) (shows_registerName y) rfl
  | keyDown x => exact read?_oneOperand "SKP" (by decide) (by decide) (shows_registerName x) rfl
  | keyUp x => exact read?_oneOperand "SKNP" (by decide) (by decide) (shows_registerName x) rfl

theorem read?_mnemonic_combine (op : Alu) (x y : Nat) :
    read? (op.mnemonic x y) = some (shown (.combine op x y)) := by
  cases op with
  | shiftRight => exact read?_oneOperand "SHR" (by decide) (by decide) (shows_registerName x) rfl
  | shiftLeft => exact read?_oneOperand "SHL" (by decide) (by decide) (shows_registerName x) rfl
  | _ => exact read?_twoOperands (by decide) (shows_registerName x) (shows_registerName y) rfl

/-- A mnemonic is read as what it shows. There is a case for each shape of text. -/
theorem read?_mnemonic (i : Instruction) : read? i.mnemonic = some i.shown := by
  cases i with
  | clear | ret => decide
  | sys nnn => exact read?_oneOperand "SYS" (by decide) (by decide) (shows_hex 4 nnn) rfl
  | jump nnn => exact read?_oneOperand "JP" (by decide) (by decide) (shows_hex 4 nnn) rfl
  | call nnn => exact read?_oneOperand "CALL" (by decide) (by decide) (shows_hex 4 nnn) rfl
  | skip c => exact read?_mnemonic_skip c
  | combine op x y => exact read?_mnemonic_combine op x y
  | jumpOffset nnn =>
    have hregister : Shows "V0" (.register 0) := shows_registerName 0
    exact read?_twoOperands (by decide) hregister (shows_hex 4 nnn) rfl
  | loadIndex nnn =>
    have hindex : Shows "I" (.other "I") := by decide
    exact read?_twoOperands (by decide) hindex (shows_hex 4 nnn) rfl
  | loadByte x kk | addByte x kk | random x kk =>
    exact read?_byteText (by decide) (shows_registerName x) (fun _ => rfl) kk
  | readDelay x =>
    have htimer : Shows "DT" (.other "DT") := by decide
    exact read?_twoOperands (by decide) (shows_registerName x) htimer rfl
  | waitKey x =>
    have hkey : Shows "K" (.other "K") := by decide
    exact read?_twoOperands (by decide) (shows_registerName x) hkey rfl
  | loadRegisters x =>
    have hblock : Shows "[I]" (.other "[I]") := by decide
    exact read?_twoOperands (by decide) (shows_registerName x) hblock rfl
  | addIndex x =>
    have hindex : Shows "I" (.other "I") := by decide
    exact read?_twoOperands (by decide) hindex (shows_registerName x) rfl
  | loadGlyph x =>
    have hglyph : Shows "F" (.other "F") := by decide
    exact read?_twoOperands (by decide) hglyph (shows_registerName x) rfl
  | setDelay x =>
    have htimer : Shows "DT" (.other "DT") := by decide
    exact read?_twoOperands (by decide) htimer (shows_registerName x) rfl
  | setSound x =>
    have htimer : Shows "ST" (.other "ST") := by decide
    exact read?_twoOperands (by decide) htimer (shows_registerName x) rfl
  | storeDecimal x =>
    have hdigits : Shows "B" (.other "B") := by decide
    exact read?_twoOperands (by decide) hdigits (shows_registerName x) rfl
  | storeRegisters x =>
    have hblock : Shows "[I]" (.other "[I]") := by decide
    exact read?_twoOperands (by decide) hblock (shows_registerName x) rfl
  | draw x y n =>
    exact read?_threeOperands (by decide) (shows_registerName x) (shows_registerName y)
      (shows_decimal n) rfl

/-- What is not shown makes no difference to the mnemonic. -/
theorem mnemonic_shown (i : Instruction) : i.shown.mnemonic = i.mnemonic := by
  cases i with
  | combine op x y => cases op <;> rfl
  | _ => rfl

/-! ## Instructions with one mnemonic -/

variable {j : Instruction}

theorem mnemonic_eq_iff : i.mnemonic = j.mnemonic ↔ i.shown = j.shown := by
  constructor
  · intro h
    have hread := read?_mnemonic i
    rw [h, read?_mnemonic] at hread
    exact (Option.some.inj hread).symm
  · intro h
    rw [← mnemonic_shown i, h, mnemonic_shown]

theorem readsSecond_eq_false {op : Alu} :
    op.readsSecond = false ↔ op = .shiftRight ∨ op = .shiftLeft := by
  cases op <;> decide

theorem shown_shift {op : Alu} (h : op.readsSecond = false) (x y : Nat) :
    shown (.combine op x y) = .combine op x 0 := by
  simp [shown, h]

/-- All of an instruction is shown, unless it is a shift. -/
theorem shown_eq_self_or (i : Instruction) :
    i.shown = i ∨ ∃ op x y, op.readsSecond = false ∧ i = .combine op x y := by
  cases i with
  | combine op x y =>
    cases h : op.readsSecond with
    | true => exact .inl (by simp [shown, h])
    | false => exact .inr ⟨op, x, y, h, rfl⟩
  | _ => exact .inl rfl

/-- Two instructions show the same if they are one, or shift one register in one direction. -/
theorem shown_eq_shown_iff : i.shown = j.shown ↔
    i = j ∨ ∃ op x y y', op.readsSecond = false ∧ i = .combine op x y ∧ j = .combine op x y' := by
  constructor
  · intro h
    rcases shown_eq_self_or i with hi | ⟨op, x, y, hop, rfl⟩ <;>
      rcases shown_eq_self_or j with hj | ⟨op', x', y', hop', rfl⟩
    · rw [hi, hj] at h
      exact .inl h
    · rw [hi, shown_shift hop'] at h
      exact .inr ⟨op', x', 0, y', hop', h, rfl⟩
    · rw [hj, shown_shift hop] at h
      exact .inr ⟨op, x, y, 0, hop, rfl, h.symm⟩
    · rw [shown_shift hop, shown_shift hop'] at h
      obtain ⟨rfl, rfl, -⟩ := Instruction.combine.inj h
      exact .inr ⟨op, x, y, y', hop, rfl, rfl⟩
  · rintro (rfl | ⟨op, x, y, y', hop, rfl, rfl⟩)
    · rfl
    · rw [shown_shift hop, shown_shift hop]

/-- The words of an operation of two registers. -/
theorem ofWord?_eq_combine_iff {w : Word} {op : Alu} {x y : Nat} :
    ofWord? w = some (.combine op x y) ↔ w.family = 8 ∧ w.n = op.nibble ∧ x = w.x ∧ y = w.y := by
  rw [ofWord?_eq_some_iff, Codes, Alu.ofNibble?_eq_some]

/-- Two words of one mnemonic are one, or shift one register in one direction. -/
theorem mnemonic_eq_iff_of_ofWord? {w w' : Word} (hw : ofWord? w = some i)
    (hw' : ofWord? w' = some j) : i.mnemonic = j.mnemonic ↔
      w = w' ∨ w.family = 8 ∧ w'.family = 8 ∧ w.x = w'.x ∧ w.n = w'.n ∧ (w.n = 6 ∨ w.n = 0xE) := by
  rw [mnemonic_eq_iff, shown_eq_shown_iff]
  constructor
  · rintro (rfl | ⟨op, x, y, y', hop, rfl, rfl⟩)
    · exact .inl ((assemble_of_ofWord? hw).symm.trans (assemble_of_ofWord? hw'))
    · obtain ⟨hfamily, hn, rfl, -⟩ := ofWord?_eq_combine_iff.1 hw
      obtain ⟨hfamily', hn', hx, -⟩ := ofWord?_eq_combine_iff.1 hw'
      refine .inr ⟨hfamily, hfamily', hx, hn.trans hn'.symm, ?_⟩
      rcases readsSecond_eq_false.1 hop with rfl | rfl
      · exact .inl hn
      · exact .inr hn
  · rintro (rfl | ⟨hfamily, hfamily', hx, hnn, hn⟩)
    · exact .inl (Option.some.inj (hw.symm.trans hw'))
    · obtain ⟨op, hop, hnibble⟩ : ∃ op : Alu, op.readsSecond = false ∧ w.n = op.nibble := by
        rcases hn with hn | hn
        · exact ⟨.shiftRight, rfl, hn⟩
        · exact ⟨.shiftLeft, rfl, hn⟩
      have hi := ofWord?_eq_combine_iff.2 ⟨hfamily, hnibble, rfl, rfl⟩
      have hj := ofWord?_eq_combine_iff.2 ⟨hfamily', hnn.symm.trans hnibble, hx, rfl⟩
      exact .inr ⟨op, w.x, w.y, w'.y, hop, Option.some.inj (hw.symm.trans hi),
        Option.some.inj (hw'.symm.trans hj)⟩

/-- **Mnemonics tell instructions apart.** Whatever their operands, two instructions have one
mnemonic just if they are one, or shift the same register to the right, or shift the same register to
the left. So two words that are shown as one text are one word, or words of such shifts, which differ
at most in the nibble of the register that is of no use. -/
theorem mnemonic_unambiguous :
    (∀ i j : Instruction, i.mnemonic = j.mnemonic ↔
      i = j ∨
        (∃ x y y', i = .combine .shiftRight x y ∧ j = .combine .shiftRight x y') ∨
        ∃ x y y', i = .combine .shiftLeft x y ∧ j = .combine .shiftLeft x y') ∧
    ∀ w w' i j, decode w = .ok i → decode w' = .ok j →
      (i.mnemonic = j.mnemonic ↔
        w = w' ∨
          w.family = 8 ∧ w'.family = 8 ∧ w.x = w'.x ∧ w.n = w'.n ∧ (w.n = 6 ∨ w.n = 0xE)) := by
  refine ⟨fun i j => ?_, fun w w' i j hw hw' =>
    mnemonic_eq_iff_of_ofWord? (decode_eq_ok.1 hw) (decode_eq_ok.1 hw')⟩
  rw [mnemonic_eq_iff, shown_eq_shown_iff]
  refine or_congr Iff.rfl ⟨?_, ?_⟩
  · rintro ⟨op, x, y, y', hop, hi, hj⟩
    rcases readsSecond_eq_false.1 hop with rfl | rfl
    · exact .inl ⟨x, y, y', hi, hj⟩
    · exact .inr ⟨x, y, y', hi, hj⟩
  · rintro (⟨x, y, y', hi, hj⟩ | ⟨x, y, y', hi, hj⟩)
    · exact ⟨.shiftRight, x, y, y', rfl, hi, hj⟩
    · exact ⟨.shiftLeft, x, y, y', rfl, hi, hj⟩

/-- Two words of `SHR VA`. -/
theorem mnemonic_unambiguous_shift :
    decode 0x8AB6 = .ok (.combine .shiftRight 0xA 0xB) ∧
      decode 0x8AC6 = .ok (.combine .shiftRight 0xA 0xC) ∧
      mnemonic (.combine .shiftRight 0xA 0xB) = mnemonic (.combine .shiftRight 0xA 0xC) := by
  have hw : decode 0x8AB6 = .ok (.combine .shiftRight 0xA 0xB) := decode_eq_ok.2 (by decide)
  have hw' : decode 0x8AC6 = .ok (.combine .shiftRight 0xA 0xC) := decode_eq_ok.2 (by decide)
  exact ⟨hw, hw', (mnemonic_unambiguous.2 _ _ _ _ hw hw').2 (.inr (by decide))⟩

end Instruction

end SpriteVM
