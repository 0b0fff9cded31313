import SpriteVM.Proofs.Reachable

/-!
# Loading

A session begins with a ROM as a whole or not at all. `Machine.Begins` says of every field of the
state where it comes from when a session begins: from the ROM, from nowhere, or from the machine
before. The fields that are taken over are the devices and the memory below the program area, so
machines that agree on these cannot be told apart any more (`Begins.unique`). A ROM that is too long
is refused before anything is written (`load_of_lt`).

`load_begins_anew` has both for a machine in any state and for a new one.
-/

namespace SpriteVM

open Numeral

namespace Machine

/-- The second machine is the first one at the start of a session with a ROM. -/
structure Begins (m : Machine) (rom : Rom) (m' : Machine) : Prop where
  /-- the name is that of the ROM -/
  name : m'.name = rom.name
  /-- no word was fetched yet -/
  word : m'.word = 0
  /-- behind what lies below the program area stands the ROM, and zeros follow to the end -/
  memory : m'.memory.toList =
    m.memory.toList.take 0x200 ++ rom.data ++ List.replicate (3584 - rom.data.length) 0
  /-- the data registers are zero -/
  registers : m'.registers.toList = List.replicate 16 0
  /-- the index register is zero -/
  index : m'.index = 0
  /-- the first instruction comes next -/
  counter : m'.counter = 0x200
  /-- there is no return address -/
  stack : m'.stack = []
  /-- the timer that programs read has run down -/
  delay : m'.delay.value = 0
  /-- the timer that sounds has run down -/
  sound : m'.sound.value = 0
  /-- no key is awaited -/
  activity : m'.activity = .running
  /-- the picture stays -/
  display : m'.display = m.display
  /-- the keys stay -/
  keyboard : m'.keyboard = m.keyboard
  /-- random bytes come from where they came from -/
  random : m'.random = m.random

/-- The machines agree on what a new session takes over. -/
structure SameGround (m₁ m₂ : Machine) : Prop where
  /-- the memory below the program area -/
  memory : m₁.memory.toList.take 0x200 = m₂.memory.toList.take 0x200
  /-- the picture -/
  display : m₁.display = m₂.display
  /-- the keys -/
  keyboard : m₁.keyboard = m₂.keyboard
  /-- the random source -/
  random : m₁.random = m₂.random

variable {m m₁ m₂ : Machine} {rom : Rom}

/-- Nothing is left of the machines before but what they agree on. -/
theorem Begins.unique {a b : Machine} (ha : m₁.Begins rom a) (hb : m₂.Begins rom b)
    (h : m₁.SameGround m₂) : a = b := by
  have hmemory : a.memory = b.memory :=
    Bank.toList_inj (by rw [ha.memory, hb.memory, h.memory])
  have hregisters : a.registers = b.registers :=
    Bank.toList_inj (by rw [ha.registers, hb.registers])
  have hdelay : a.delay = b.delay := congrArg Timer.mk (ha.delay.trans hb.delay.symm)
  have hsound : a.sound = b.sound := congrArg Timer.mk (ha.sound.trans hb.sound.symm)
  have hdisplay : a.display = b.display := by rw [ha.display, hb.display, h.display]
  have hkeyboard : a.keyboard = b.keyboard := by rw [ha.keyboard, hb.keyboard, h.keyboard]
  have hrandom : a.random = b.random := by rw [ha.random, hb.random, h.random]
  cases a
  cases b
  rw [Machine.mk.injEq]
  exact ⟨ha.name.trans hb.name.symm, ha.word.trans hb.word.symm, hmemory, hregisters,
    ha.index.trans hb.index.symm, ha.counter.trans hb.counter.symm, ha.stack.trans hb.stack.symm,
    hdelay, hsound, ha.activity.trans hb.activity.symm, hdisplay, hkeyboard, hrandom⟩

/-- The program area is cleared before the ROM is put into it. -/
theorem toList_memory_install {data : List UInt8} (h : data.length ≤ programLimit) :
    (m.install data).memory.toList =
      m.memory.toList.take programStart ++ data ++
        List.replicate (programLimit - data.length) 0 := by
  have hzeros : programStart + (List.replicate programLimit (0 : UInt8)).length ≤ memorySize := by
    rw [List.length_replicate]
    exact programStart_add_le (Nat.le_refl _)
  have hlow : (m.memory.toList.take programStart).length = programStart :=
    List.length_take_of_le (by rw [Bank.length_toList]; decide)
  -- the zeros reach to the end of memory
  have hend : m.memory.toList.drop (programStart + (List.replicate programLimit
      (0 : UInt8)).length) = [] :=
    List.drop_eq_nil_of_le (by rw [Bank.length_toList, List.length_replicate]; decide)
  let cleared := m.memory.fill programStart (List.replicate programLimit 0)
  have hcleared : cleared.toList =
      m.memory.toList.take programStart ++ List.replicate programLimit 0 := by
    rw [Bank.toList_fill hzeros, hend, List.append_nil]
  have hfront : cleared.toList.take programStart = m.memory.toList.take programStart := by
    rw [hcleared, List.take_left' hlow]
  have hback : cleared.toList.drop (programStart + data.length) =
      List.replicate (programLimit - data.length) 0 := by
    rw [hcleared, ← List.drop_drop, List.drop_left' hlow, List.drop_replicate]
  show (cleared.fill programStart data).toList = _
  rw [Bank.toList_fill (programStart_add_le h), hfront, hback]

theorem begins_loaded (h : rom.data.length ≤ programLimit) : m.Begins rom (m.loaded rom) where
  name := rfl
  word := rfl
  memory := toList_memory_install h
  registers := rfl
  index := rfl
  counter := rfl
  stack := rfl
  delay := rfl
  sound := rfl
  activity := rfl
  display := rfl
  keyboard := rfl
  random := rfl

theorem act_load_of_lt (h : programLimit < rom.data.length) :
    m.act (.load rom) =
      { machine := m, answer := .tooLarge ⟨rom.data.length, programLimit⟩ } := by
  rw [act, load_of_lt h]
  rfl

theorem act_load_of_le (h : rom.data.length ≤ programLimit) :
    m.act (.load rom) =
      { machine := m.loaded rom
        answer := .done
        log := [.romLoaded rom.name rom.data.length] } := by
  rw [act, load_of_le h]
  rfl

theorem boot_of_lt {display : Display} {keyboard : Keyboard} {random : ByteSource}
    (h : programLimit < rom.data.length) :
    boot rom display keyboard random = .error (.tooLarge ⟨rom.data.length, programLimit⟩) := by
  rw [boot, load_of_lt h]
  rfl

/-- **A session begins anew or not at all.** Exactly the ROMs of more than 3584 bytes are refused,
with their length and that limit, and a refused ROM leaves the machine as it is. With every other ROM
a session begins on a machine in any state whatever, and nothing of the session before is left:
machines that agree below the program area and on their devices are equal afterwards. A new machine is
made in the same way, from one with nothing but the glyphs in it. -/
theorem load_begins_anew (rom : Rom) :
    (∀ m : Machine,
      (m.act (.load rom) = { machine := m, answer := .tooLarge ⟨rom.data.length, 3584⟩ } ↔
        3584 < rom.data.length) ∧
      ((∃ m', m.Begins rom m' ∧
        m.act (.load rom) =
          { machine := m', answer := .done, log := [.romLoaded rom.name rom.data.length] }) ↔
        rom.data.length ≤ 3584)) ∧
    (∀ (display : Display) (keyboard : Keyboard) (random : ByteSource),
      (boot rom display keyboard random = .error (.tooLarge ⟨rom.data.length, 3584⟩) ↔
        3584 < rom.data.length) ∧
      ((∃ m', (blank display keyboard random).Begins rom m' ∧
        boot rom display keyboard random = .ok m') ↔ rom.data.length ≤ 3584)) ∧
    (RomTooLarge.mk rom.data.length 3584).message =
      "The rom is " ++ decimal rom.data.length ++ " bytes long, but there is only space for " ++
        decimal 3584 ++ " bytes." ∧
    ∀ m₁ m₂ : Machine, m₁.SameGround m₂ → rom.data.length ≤ 3584 →
      m₁.act (.load rom) = m₂.act (.load rom) := by
  refine ⟨fun m => ⟨⟨?_, act_load_of_lt⟩, ⟨?_, fun h => ⟨_, begins_loaded h, act_load_of_le h⟩⟩⟩,
    fun display keyboard random => ⟨⟨?_, boot_of_lt⟩, ⟨?_, ?_⟩⟩, rfl, ?_⟩
  · intro hact
    refine Nat.lt_of_not_le fun h => ?_
    cases (congrArg Report.answer hact).symm.trans (congrArg Report.answer (act_load_of_le h))
  · rintro ⟨m', -, hact⟩
    refine Nat.le_of_not_lt fun h => ?_
    cases (congrArg Report.answer hact).symm.trans (congrArg Report.answer (act_load_of_lt h))
  · intro hboot
    refine Nat.lt_of_not_le fun h => ?_
    cases hboot.symm.trans (boot_eq_ok.2 ⟨h, rfl⟩)
  · rintro ⟨m', -, hboot⟩
    exact (boot_eq_ok.1 hboot).1
  · intro h
    exact ⟨_, begins_loaded h, boot_eq_ok.2 ⟨h, rfl⟩⟩
  · intro m₁ m₂ hsame h
    rw [act_load_of_le h, act_load_of_le h, (begins_loaded h).unique (begins_loaded h) hsame]

/-- A machine that awaits a key keeps waiting when a ROM of one byte too much is refused, and is as
good as new with a ROM that fills the program area. -/
theorem load_begins_anew_awaiting :
    ∃ m : Machine, m.Reachable ∧ m.activity = .awaitingKey 3 ∧
      m.act (.load ⟨"long", List.replicate 3585 0xAA⟩) =
        { machine := m, answer := .tooLarge ⟨3585, 3584⟩ } ∧
      ∃ new : Machine, boot ⟨"none", []⟩ m.display m.keyboard m.random = .ok new ∧ m ≠ new ∧
        m.act (.load ⟨"full", List.replicate 3584 0xAA⟩) =
          new.act (.load ⟨"full", List.replicate 3584 0xAA⟩) := by
  obtain ⟨new, hnew, hboot⟩ :=
    ((load_begins_anew ⟨"none", []⟩).2.1 .standard .released (.cycle #[])).2.2 (by decide)
  have hlong : 3584 < (List.replicate 3585 (0xAA : UInt8)).length := by
    rw [List.length_replicate]
    decide
  have hfull : (List.replicate 3584 (0xAA : UInt8)).length ≤ 3584 :=
    Nat.le_of_eq List.length_replicate
  -- an instruction from outside begins the wait and writes nothing else that lasts
  let m := (new.act (.perform (.waitKey 3))).machine
  refine ⟨m, .act (.boot hboot) ⟨0xF30A, by decide⟩, rfl, ?_, new, ?_, ?_, ?_⟩
  · have hrefused := ((load_begins_anew ⟨"long", List.replicate 3585 0xAA⟩).1 m).1.2 hlong
    rw [hrefused, List.length_replicate]
  · show boot _ new.display new.keyboard new.random = _
    rw [hnew.display, hnew.keyboard, hnew.random]
    exact hboot
  · intro h
    cases (congrArg activity h).trans hnew.activity
  · exact (load_begins_anew ⟨"full", List.replicate 3584 0xAA⟩).2.2.2 m new ⟨rfl, rfl, rfl, rfl⟩ hfull

end Machine

end SpriteVM
