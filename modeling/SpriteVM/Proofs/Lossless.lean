import SpriteVM.Inspect.Overview
import SpriteVM.Proofs.MemoryTable
import SpriteVM.Proofs.Reachable

/-!
# The overview loses nothing

The overview of a reachable machine tells everything about it but its display and its random source.
The name of the program is an arbitrary text, which may look like any part of an overview. It stands
in front of all other parts that vary, so the overview is read from its end: every section behind the
name tells its part of the machine and where it begins (`tells_cons`, `tells_details`), and what is
left in front is the name (`overview_lossless`).
-/

namespace SpriteVM

open Numeral

/-- The wordings of the activities have different ends. -/
theorem tells_activity {a b : Activity} (ha : ∀ r, a = .awaitingKey r → r < 16)
    (hb : ∀ r, b = .awaitingKey r → r < 16) : Tells a.text b.text (a = b) := by
  -- one of the wordings ends with a digit, and the other one with a letter that is none
  have hends : ∀ r < 16, Tells "g" (hexDigits 1 r) False := by
    intro r hr
    refine Tells.of_length (length_hexDigits (by decide) hr).symm fun h => ?_
    have hmem : 'g' ∈ (hexDigits 1 r).toList := by
      rw [← h]
      decide
    exact notMem_hexDigits rfl hmem
  have htext : ∀ r, (Activity.awaitingKey r).text = "Awaiting key for " ++ "V" ++ hexDigits 1 r := by
    intro r
    rw [String.append_assoc]
    rfl
  have hrunning : Activity.running.text = "Runnin" ++ "g" := by decide
  cases a with
  | running =>
    cases b with
    | running => exact (Tells.same _).of_imp fun _ => rfl
    | awaitingKey r =>
      rw [hrunning, htext]
      exact Tells.of_ends "Runnin" _ (hends r (hb r rfl))
  | awaitingKey r =>
    cases b with
    | running =>
      rw [hrunning, htext]
      exact Tells.of_ends _ "Runnin" (hends r (ha r rfl)).symm
    | awaitingKey r' =>
      refine ((Tells.registerName (ha r rfl) (hb r' rfl)).before "Awaiting key for ").of_imp ?_
      rintro rfl
      rfl

namespace Machine

variable {m m' : Machine}

/-! ## Sections -/

/-- Sections one after the other. -/
def sectionsText (sections : List (String × String)) : String :=
  String.join (sections.map fun s => sectionText s.1 s.2)

theorem tells_cons {heading body body' : String} {rest rest' : List (String × String)} {p q : Prop}
    (h : Tells body body' p) (hrest : Tells (sectionsText rest) (sectionsText rest') q) :
    Tells (sectionsText ((heading, body) :: rest)) (sectionsText ((heading, body') :: rest'))
      (p ∧ q) := by
  rw [sectionsText, sectionsText, List.map_cons, List.map_cons, String.join_cons, String.join_cons]
  exact ((h.before _).after "\n").append hrest

theorem tells_overviewNumber {n n' : Nat} (h : n < 0x10000) (h' : n' < 0x10000) :
    Tells (overviewNumber n) (overviewNumber n') (n = n') :=
  (Tells.addressText h h').before Table.indent

theorem length_stackSlots (hm : m.Valid) : m.stackSlots.length = 16 := by
  have hdepth : m.stack.length ≤ 16 := hm.depth
  rw [stackSlots, List.length_append, List.length_reverse, List.length_replicate, stackLimit]
  omega

theorem lt_of_mem_stackSlots (hm : m.Valid) {n : Nat} (h : n ∈ m.stackSlots) : n < 0x10000 := by
  rcases List.mem_append.1 h with h | h
  · exact Nat.lt_trans (hm.stack n (List.mem_reverse.1 h)) (by decide)
  · rw [List.eq_of_mem_replicate h]
    decide

theorem eq_of_stackSlots (hlength : m.stack.length = m'.stack.length)
    (h : m.stackSlots = m'.stackSlots) : m.stack = m'.stack := by
  rw [stackSlots, stackSlots] at h
  have hreverse := (List.append_inj h (by simpa using hlength)).1
  exact List.reverse_inj.1 hreverse

/-- The sections behind the name of the program. -/
def details (m : Machine) : List (String × String) :=
  m.sections.tail

/-- The sections behind the name tell their parts of the machine. -/
theorem tells_details (hm : m.Valid) (hm' : m'.Valid) :
    Tells (sectionsText m.details) (sectionsText m'.details)
      (m.word = m'.word ∧ m.counter = m'.counter ∧ m.index = m'.index ∧
        m.stack.length = m'.stack.length ∧ m.delay.value = m'.delay.value ∧
        m.sound.value = m'.sound.value ∧ m.activity = m'.activity ∧ m.memory = m'.memory ∧
        m.keyboard = m'.keyboard ∧ m.stackSlots = m'.stackSlots ∧ m.registers = m'.registers ∧
        True) := by
  have haddress : ∀ {a : Nat}, a < memorySize → a < 0x10000 :=
    fun h => Nat.lt_trans h (by decide)
  have hbyte : ∀ b : UInt8, b.toNat < 0x10000 := fun b => Nat.lt_trans b.toNat_lt (by decide)
  have hdepth : ∀ {n : Nat}, n ≤ stackLimit → n < 0x10000 :=
    fun h => Nat.lt_of_le_of_lt h (by decide)
  have hkeyboard : ∀ k : Keyboard, k.states.length = 16 := fun k => k.keys.length_toList
  have hregisters : ∀ b : Registers, (b.toList.map UInt8.toNat).length = 16 := by
    intro b
    rw [List.length_map, Bank.length_toList]
  have hbytes : ∀ (b : Registers) (n : Nat), n ∈ b.toList.map UInt8.toNat → n < 0x10000 := by
    intro b n hn
    obtain ⟨v, -, rfl⟩ := List.mem_map.1 hn
    exact hbyte v
  refine tells_cons ((tells_overviewNumber m.word.toNat_lt m'.word.toNat_lt).of_imp
    UInt16.toNat_inj.1) ?_
  refine tells_cons (tells_overviewNumber (haddress hm.counter) (haddress hm'.counter)) ?_
  refine tells_cons (tells_overviewNumber (haddress hm.index) (haddress hm'.index)) ?_
  refine tells_cons (tells_overviewNumber (hdepth hm.depth) (hdepth hm'.depth)) ?_
  refine tells_cons ((tells_overviewNumber (hbyte _) (hbyte _)).of_imp UInt8.toNat_inj.1) ?_
  refine tells_cons ((tells_overviewNumber (hbyte _) (hbyte _)).of_imp UInt8.toNat_inj.1) ?_
  refine tells_cons ((tells_activity hm.awaited hm'.awaited).before Table.indent) ?_
  refine tells_cons ((Table.tells_ofMemory (Bank.length_toList _) (Bank.length_toList _)).of_imp
    Bank.toList_inj) ?_
  refine tells_cons ((Table.tells_ofBools (hkeyboard _) (hkeyboard _)).of_imp ?_) ?_
  · intro h
    exact congrArg Keyboard.mk (Vector.toList_inj.1 h)
  refine tells_cons (Table.tells_ofNumbers (length_stackSlots hm) (length_stackSlots hm')
    (fun _ => lt_of_mem_stackSlots hm) fun _ => lt_of_mem_stackSlots hm') ?_
  refine tells_cons ((Table.tells_ofNumbers (hregisters _) (hregisters _) (hbytes _)
    (hbytes _)).of_imp ?_) (Tells.same _)
  intro h
  exact Bank.toList_inj ((List.map_inj_right fun _ _ => UInt8.toNat_inj.1).1 h)

/-! ## The overview -/

/-- The name of the program stands in front of all that varies besides. -/
theorem overview_eq (m : Machine) :
    m.overview =
      "Chipset \x7b\n" ++ sectionText "Program Name" (overviewLine m.name) ++
        (sectionsText m.details ++ "\x7d") := by
  have hsections : m.sections = ("Program Name", overviewLine m.name) :: m.details := rfl
  rw [overview, hsections, List.map_cons, String.join_cons, sectionsText]
  simp only [String.append_assoc]

/-- The section of the name tells the name, since nothing that varies is in front of it. -/
theorem name_inj {name name' : String}
    (h : "Chipset \x7b\n" ++ sectionText "Program Name" (overviewLine name) =
      "Chipset \x7b\n" ++ sectionText "Program Name" (overviewLine name')) : name = name' := by
  rw [String.append_right_inj, sectionText, sectionText, String.append_left_inj,
    String.append_right_inj, overviewLine, overviewLine, String.append_right_inj] at h
  exact h

/-- **The overview loses nothing.** Two reachable machines with the same overview are the same but
for their displays and their random sources: they have the same name, whatever text that is, the same
remembered word, program counter, index register, stack, timers and activity, and the same memory,
keys and registers. -/
theorem overview_lossless (hm : m.Reachable) (hm' : m'.Reachable) (h : m.overview = m'.overview) :
    m = { m' with display := m.display, random := m.random } := by
  rw [overview_eq, overview_eq] at h
  obtain ⟨hfront, hword, hcounter, hindex, hdepth, hdelay, hsound, hactivity, hmemory, hkeyboard,
    hslots, hregisters, -⟩ := (tells_details hm.valid hm'.valid).after "\x7d" _ _ h
  have hname := name_inj hfront
  have hstack := eq_of_stackSlots hdepth hslots
  have hdelay' : m.delay = m'.delay := congrArg Timer.mk hdelay
  have hsound' : m.sound = m'.sound := congrArg Timer.mk hsound
  rw [← hname, ← hword, ← hmemory, ← hregisters, ← hindex, ← hcounter, ← hstack, ← hdelay',
    ← hsound', ← hactivity, ← hkeyboard]

/-- Machines that are booted with the same program on two displays differ in these only. -/
theorem loaded_blank (display display' : Display) (keyboard : Keyboard) (random : ByteSource)
    (rom : Rom) : (blank display' keyboard random).loaded rom =
      { (blank display keyboard random).loaded rom with display := display' } := by
  have hblank : blank display' keyboard random =
      { blank display keyboard random with display := display' } := rfl
  rw [hblank]
  rfl

/-- A program whose name reads like a part of an overview, on two displays. -/
theorem overview_lossless_name :
    ∃ m m' : Machine, m.Reachable ∧ m'.Reachable ∧ m.overview = m'.overview ∧
      m.display.width ≠ m'.display.width ∧ m.name = "x\n\tOpcode :\n\t\t0x0000" ∧
      m = { m' with display := m.display, random := m.random } := by
  obtain ⟨m, m', hm, hm', hname, hwidth, hwidth', hsame⟩ : ∃ m m' : Machine, m.Reachable ∧
      m'.Reachable ∧ m.name = "x\n\tOpcode :\n\t\t0x0000" ∧ m.display.width = 2 ∧
      m'.display.width = 3 ∧ m' = { m with display := m'.display } :=
    ⟨(blank (.blank 2 1) .released (.cycle #[])).loaded ⟨"x\n\tOpcode :\n\t\t0x0000", []⟩,
      (blank (.blank 3 1) .released (.cycle #[])).loaded ⟨"x\n\tOpcode :\n\t\t0x0000", []⟩,
      .boot (boot_eq_ok.2 ⟨by decide, rfl⟩), .boot (boot_eq_ok.2 ⟨by decide, rfl⟩), rfl, rfl, rfl,
      loaded_blank ..⟩
  have hoverview : m.overview = m'.overview := by
    rw [hsame]
    rfl
  refine ⟨m, m', hm, hm', hoverview, ?_, hname, overview_lossless hm hm' hoverview⟩
  rw [hwidth, hwidth']
  decide

end Machine

end SpriteVM
