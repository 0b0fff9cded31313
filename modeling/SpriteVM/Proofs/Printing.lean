import SpriteVM.Proofs.Grid
import SpriteVM.Proofs.Parsing

/-!
# What the commands show

Three commands only show something, of the machine or of the commands themselves. What they print
tells all that they are about.

* `registers` has a line for every data register and one for each other part of the processor. Each
  line tells the content of its part, so two machines print the same just if they have the same
  processor (`registers_shown`).
* `video` has a line for every row of the display and a character for every pixel (`video_shown`).
* `help` has a line for every verb, with the names that the verb is understood by and with its usage
  in a column of its own (`help_shown`).
-/

namespace SpriteVM

open Numeral

/-! ## Parts of a line -/

theorem hex_inj {width n n' : Nat} (h : hex width n = hex width n') : n = n' :=
  padded_inj (by decide) (by decide) (String.ofList_inj.1 ((String.append_right_inj "0x").1 h))

theorem byteText_inj {b b' : UInt8} (h : byteText b = byteText b') : b = b' :=
  UInt8.toNat_inj.1 (hex_inj h)

theorem Activity.text_inj {a b : Activity} (h : a.text = b.text) : a = b := by
  have hlonger : ∀ r, Activity.running.text ≠ (Activity.awaitingKey r).text := by
    intro r heq
    have hlength : (Activity.awaitingKey r).text.length =
        "Awaiting key for ".length + (registerName r).length := String.length_append _ _
    have hshort : Activity.running.text.length = 7 := by decide
    have hlong : "Awaiting key for ".length = 17 := by decide
    rw [← heq, hshort, hlong] at hlength
    omega
  cases a with
  | running =>
    cases b with
    | running => rfl
    | awaitingKey r => exact absurd h (hlonger r)
  | awaitingKey r =>
    cases b with
    | running => exact absurd h.symm (hlonger r)
    | awaitingKey r' =>
      have hname := (String.append_right_inj "V").1 ((String.append_right_inj _).1 h)
      rw [padded_inj (by decide) (by decide) (String.ofList_inj.1 hname)]

theorem onOneLine_registerName (x : Nat) : OnOneLine (registerName x) :=
  (by decide : OnOneLine "V").append (onOneLine_hexDigits 1 x)

theorem Activity.onOneLine_text (a : Activity) : OnOneLine a.text := by
  cases a with
  | running => decide
  | awaitingKey r => exact OnOneLine.append (by decide) (onOneLine_registerName r)

namespace Machine

/-! ## Registers -/

/-- The line of a register. -/
def registerLine (x : Nat) (v : UInt8) : String :=
  registerName x ++ ": " ++ byteText v

theorem length_registerLines (x : Nat) (vs : List UInt8) :
    (registerLines x vs).length = vs.length := by
  induction vs generalizing x with
  | nil => rfl
  | cons v vs ih => rw [registerLines, List.length_cons, ih, List.length_cons]

/-- The lines of registers are numbered from the first one on. -/
theorem getElem?_registerLines (x : Nat) (vs : List UInt8) (k : Nat) :
    (registerLines x vs)[k]? = vs[k]?.map (registerLine (x + k)) := by
  induction vs generalizing x k with
  | nil => rfl
  | cons v vs ih =>
    cases k with
    | zero => rfl
    | succ k =>
      have hplace : x + 1 + k = x + (k + 1) := by omega
      rw [registerLines, List.getElem?_cons_succ, List.getElem?_cons_succ, ih, hplace]

/-- The lines of registers tell their contents. -/
theorem registerLines_inj {x : Nat} {vs vs' : List UInt8}
    (h : registerLines x vs = registerLines x vs') : vs = vs' := by
  refine List.ext_getElem? fun k => ?_
  have hline := congrArg (fun lines => lines[k]?) h
  simp only [getElem?_registerLines] at hline
  refine Option.map_injective (fun v v' hv => ?_) hline
  exact byteText_inj ((String.append_right_inj _).1 hv)

theorem onOneLine_registerLine (x : Nat) (v : UInt8) : OnOneLine (registerLine x v) :=
  ((onOneLine_registerName x).append (by decide)).append (onOneLine_hex 2 v.toNat)

/-- The machines have the same processor, up to the return addresses. -/
structure SameProcessor (m m' : Machine) : Prop where
  /-- the data registers -/
  registers : m.registers = m'.registers
  /-- the index register -/
  index : m.index = m'.index
  /-- the timer that programs read -/
  delay : m.delay = m'.delay
  /-- the timer that sounds -/
  sound : m.sound = m'.sound
  /-- the program counter -/
  counter : m.counter = m'.counter
  /-- the number of return addresses -/
  depth : m.stack.length = m'.stack.length
  /-- what the next step does -/
  activity : m.activity = m'.activity

variable {m m' : Machine}

/-- The lines of the processor tell the processor. -/
theorem processorLines_eq_iff : m.processorLines = m'.processorLines ↔ m.SameProcessor m' := by
  constructor
  · intro h
    have hlength : (registerLines 0 m.registers.toList).length =
        (registerLines 0 m'.registers.toList).length := by
      rw [length_registerLines, length_registerLines, Bank.length_toList, Bank.length_toList]
    obtain ⟨hregisters, hrest⟩ := List.append_inj h hlength
    simp only [List.cons.injEq, String.append_right_inj, and_true] at hrest
    obtain ⟨hindex, hdelay, hsound, hcounter, hdepth, hactivity⟩ := hrest
    exact ⟨Bank.toList_inj (registerLines_inj hregisters), hex_inj hindex,
      congrArg Timer.mk (byteText_inj hdelay), congrArg Timer.mk (byteText_inj hsound),
      hex_inj hcounter, hex_inj hdepth, Activity.text_inj hactivity⟩
  · intro h
    rw [processorLines, processorLines, h.registers, h.index, h.delay, h.sound, h.counter, h.depth,
      h.activity]

theorem onOneLine_of_mem_processorLines {line : String} (h : line ∈ m.processorLines) :
    OnOneLine line := by
  rcases List.mem_append.1 h with h | h
  · obtain ⟨k, hk⟩ := List.mem_iff_getElem?.1 h
    rw [getElem?_registerLines] at hk
    obtain ⟨v, -, rfl⟩ := Option.map_eq_some_iff.1 hk
    exact onOneLine_registerLine _ v
  · simp only [List.mem_cons, List.not_mem_nil, or_false] at h
    rcases h with rfl | rfl | rfl | rfl | rfl | rfl
    case inr.inr.inr.inr.inr => exact OnOneLine.append (by decide) m.activity.onOneLine_text
    all_goals exact OnOneLine.append (by decide) (onOneLine_hex _ _)

/-- **The processor is shown.** Asked for the registers, the machine prints twenty-two lines, and
nothing happens to it. The first sixteen show the data registers in their order, and the others the
rest of the processor. Machines print the same lines just when they have the same processor, up to
the return addresses, of which only the number is shown. -/
theorem registers_shown (m : Machine) :
    ∃ lines, Command.registers.respond m = { machine := m, lines } ∧ lines.length = 22 ∧
      (∀ line ∈ lines, '\n' ∉ line.toList) ∧
      (∀ x < 16, lines[x]? =
        some ("V" ++ hexDigits 1 x ++ ": " ++ hex 2 (m.registers.cell x).toNat)) ∧
      lines.drop 16 =
        ["I: " ++ hex 4 m.index, "DT: " ++ hex 2 m.delay.value.toNat,
          "ST: " ++ hex 2 m.sound.value.toNat, "PC: " ++ hex 4 m.counter,
          "SP: " ++ hex 2 m.stack.length, "State: " ++ m.activity.text] ∧
      ∀ m' : Machine, (Command.registers.respond m').lines = lines ↔ m'.SameProcessor m := by
  have hlength : (registerLines 0 m.registers.toList).length = 16 := by
    rw [length_registerLines, Bank.length_toList]
  refine ⟨_, rfl, ?_, fun line => onOneLine_of_mem_processorLines, fun x hx => ?_,
    List.drop_left' hlength, fun m' => processorLines_eq_iff⟩
  · rw [processorLines, List.length_append, hlength]
    rfl
  · rw [processorLines, List.getElem?_append_left (by omega), getElem?_registerLines,
      Bank.getElem?_toList, Bank.get?_eq_some hx, Nat.zero_add]
    rfl

/-! ## Display -/

/-- **The display is shown.** Asked for the video memory, the machine prints the text of its display,
and nothing happens to it. A display without pixels has no text. Any other text has a line for each
row and a character for each pixel, and displays of one size have the same text just when they have
the same pixels. -/
theorem video_shown (m : Machine) :
    ∃ text, Command.video.respond m = { machine := m, lines := [text] } ∧
      (m.display.width = 0 ∨ m.display.height = 0 → text = "") ∧
      (0 < m.display.width → 0 < m.display.height → ∃ rows,
        text.toList.splitOn '\n' = rows ∧ rows.length = m.display.height ∧
          ∀ x y, (rows[y]?.bind fun row => row[x]?) =
            (m.display.get? x y).map fun lit => if lit then 'x' else '.') ∧
      ∀ m' : Machine, m'.display.width = m.display.width → m'.display.height = m.display.height →
        ((Command.video.respond m').lines = [text] ↔
          ∀ x y, m'.display.get? x y = m.display.get? x y) := by
  refine ⟨_, rfl, fun hnone => ?_, fun hw hh => ⟨_, Display.splitOn_text hw hh, ?_, fun x y => ?_⟩,
    fun m' hw hh => ?_⟩
  · rw [Display.text, Display.rows_eq_nil hnone]
    rfl
  · rw [List.length_map, Display.length_rows hw]
  · rw [← Display.getElem?_rows, List.getElem?_map]
    cases m.display.rows[y]? with
    | none => rfl
    | some row => exact List.getElem?_map
  · rw [← Display.text_eq_iff hw hh]
    exact List.singleton_inj

end Machine

/-! ## Help -/

/-- A line explains a verb. -/
structure Verb.Explained (v : Verb) (line : String) : Prop where
  /-- there is no line feed in it -/
  onOneLine : OnOneLine line
  /-- its first two words are the names that the verb is understood by -/
  names : ∀ word, Verb.ofName? (String.ofList word) = some v ↔
    word ∈ (Blank.words line.toList).take 2
  /-- the usage of the verb stands behind the columns of the names -/
  usage : line.toList.drop 17 = v.usage.toList

/-- A column of names is a column of words. -/
theorem words_padRight_append {name : String} (h : Blank.IsWord name.toList) (width : Nat)
    (rest : String) :
    Blank.words (Layout.padRight width name ++ " " ++ rest).toList =
      name.toList :: Blank.words rest.toList := by
  have hgap : (Layout.padRight width name ++ " " ++ rest).toList =
      name.toList ++ (List.replicate (width - name.length + 1) ' ' ++ rest.toList) := by
    rw [List.replicate_succ', Layout.padRight]
    simp only [String.toList_append, String.toList_ofList, List.append_assoc]
    rfl
  have hblank : Blank.allBlank (List.replicate (width - name.length + 1) ' ') = true := by
    rw [Blank.allBlank, List.all_replicate, if_neg (Nat.succ_ne_zero _)]
    decide
  have hend : Blank.EndsWord (List.replicate (width - name.length + 1) ' ' ++ rest.toList) :=
    Blank.endsWord_cons (by decide) _
  rw [hgap, Blank.words_append h hend, Blank.words_blank_append hblank]

/-- A column is as wide as it should be, when its name is not wider. -/
theorem length_padRight {width : Nat} {s : String} (h : s.length ≤ width) :
    (Layout.padRight width s).toList.length = width := by
  rw [Layout.padRight, String.toList_append, String.toList_ofList, List.length_append,
    List.length_replicate, String.length_toList, Nat.add_sub_cancel' h]

theorem OnOneLine.padRight {s : String} (h : OnOneLine s) (width : Nat) :
    OnOneLine (Layout.padRight width s) := by
  refine h.append ?_
  rw [OnOneLine, String.toList_ofList]
  exact fun hmem => absurd (List.eq_of_mem_replicate hmem) (by decide)

/-- A line feed is blank, so there is none in a word. -/
theorem OnOneLine.of_isWord {s : String} (h : Blank.IsWord s.toList) : OnOneLine s :=
  fun hmem => absurd (h.isBlank_eq_false '\n' hmem) (by decide)

namespace Verb

variable {v : Verb}

theorem isWord_name (v : Verb) : Blank.IsWord v.name.toList :=
  Named.isWord (.inl rfl)

theorem isWord_shortName (v : Verb) : Blank.IsWord v.shortName.toList :=
  Named.isWord (.inr rfl)

theorem helpLine_eq (v : Verb) :
    v.helpLine =
      Layout.padRight 12 v.name ++ " " ++ (Layout.padRight 3 v.shortName ++ " " ++ v.usage) := by
  simp only [helpLine, String.append_assoc]

/-- The names of a verb are the first words of its line. -/
theorem words_helpLine (v : Verb) :
    Blank.words v.helpLine.toList =
      v.name.toList :: v.shortName.toList :: Blank.words v.usage.toList := by
  rw [helpLine_eq, words_padRight_append v.isWord_name,
    words_padRight_append v.isWord_shortName]

theorem explained_helpLine (v : Verb) : v.Explained v.helpLine where
  onOneLine := by
    have husage : ∀ v ∈ all, OnOneLine v.usage := by decide
    have hgap : OnOneLine " " := by decide
    have hname := (OnOneLine.of_isWord v.isWord_name).padRight 12
    have hshort := (OnOneLine.of_isWord v.isWord_shortName).padRight 3
    exact (((hname.append hgap).append hshort).append hgap).append (husage v v.mem_all)
  names word := by
    rw [ofName?_eq_some, words_helpLine]
    exact List.mem_pair.symm
  usage := by
    have all : ∀ v ∈ all, v.name.length ≤ 12 ∧ v.shortName.length ≤ 3 := by decide
    obtain ⟨hname, hshort⟩ := all v v.mem_all
    rw [helpLine, String.toList_append]
    refine List.drop_left' ?_
    simp only [String.toList_append, List.length_append, length_padRight hname,
      length_padRight hshort]
    rfl

end Verb

/-- **The help text explains every verb.** Asked for help, the machine prints one line for each verb,
and nothing happens to it. A line has the names of its verb, which are those that it is understood by,
and then its usage. -/
theorem help_shown (m : Machine) :
    ∃ lines, Command.help.respond m = { machine := m, lines } ∧
      lines.length = Verb.all.length ∧ Verb.all.Nodup ∧ (∀ v : Verb, v ∈ Verb.all) ∧
      ∀ (k : Nat) (v : Verb), Verb.all[k]? = some v →
        ∃ line, lines[k]? = some line ∧ v.Explained line := by
  refine ⟨_, rfl, List.length_map _, by decide, Verb.mem_all, fun k v hv => ?_⟩
  exact ⟨v.helpLine, by rw [List.getElem?_map, hv]; rfl, v.explained_helpLine⟩

end SpriteVM
