import SpriteVM.Inspect.Table

/-!
# The overview

Everything about a machine in one text, except for its display and its random source: a section for
each part, with a heading and the part below it.
-/

namespace SpriteVM.Machine

/-- A section: the heading and, below it, the body. -/
def sectionText (heading body : String) : String :=
  "\t" ++ heading ++ " :\n" ++ body ++ "\n"

/-- A body of a single line. -/
def overviewLine (s : String) : String :=
  Table.indent ++ s

/-- A body of a single number. -/
def overviewNumber (n : Nat) : String :=
  overviewLine (addressText n)

/-- The return addresses in the order in which they were pushed, with zeros in the free places. -/
def stackSlots (m : Machine) : List Nat :=
  m.stack.reverse ++ List.replicate (stackLimit - m.stack.length) 0

/-- The sections with their headings, in order. -/
def sections (m : Machine) : List (String × String) :=
  [("Program Name", overviewLine m.name),
   ("Opcode", overviewNumber m.word.toNat),
   ("Program Counter", overviewNumber m.counter),
   ("Index Register", overviewNumber m.index),
   ("Stack Pointer", overviewNumber m.stack.length),
   ("Delay Timer", overviewNumber m.delay.value.toNat),
   ("Sound Timer", overviewNumber m.sound.value.toNat),
   ("State", overviewLine m.activity.text),
   ("Memory", Table.ofMemory m.memory.toList),
   ("Keyboard", Table.ofBools m.keyboard.states),
   ("Stack", Table.ofNumbers m.stackSlots),
   ("Register", Table.ofNumbers (m.registers.toList.map UInt8.toNat))]

/-- The overview of a machine. -/
def overview (m : Machine) : String :=
  "Chipset \x7b\n" ++ String.join (m.sections.map fun s => sectionText s.1 s.2) ++ "\x7d"

end SpriteVM.Machine
