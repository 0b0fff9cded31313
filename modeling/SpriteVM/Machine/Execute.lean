import SpriteVM.Instruction.Alu
import SpriteVM.Machine.Work
import SpriteVM.Sprite

/-!
# Executing an instruction

`Work.execute` applies the meaning of one instruction. It hands back an `Effect`: how the program
counter goes on and what to ask of the host. The program counter itself is left to `Work.follow`; it
already points past the instruction.
-/

namespace SpriteVM

/-- How the machine goes on after an executed instruction. -/
structure Effect where
  /-- how the program counter goes on -/
  flow : Flow := .next
  /-- what is asked of the host -/
  hint : Hint := .idle
  deriving DecidableEq, Repr

namespace Work

/-! ## Conditions -/

/-- Whether the key that a register names is down, with a warning when it names none. -/
def keyTest (x : Nat) : Work StepError Bool := do
  let v ← register x
  if Keyboard.size ≤ v.toNat then say (.notAKey x v)
  look fun m => m.keyboard.isDown v.toNat

/-- Whether a condition holds. -/
def test : Condition → Work StepError Bool
  | .equalByte x kk => do
    let vx ← register x
    return vx == kk
  | .unequalByte x kk => do
    let vx ← register x
    return vx != kk
  | .equal x y => do
    let vx ← register x
    let vy ← register y
    return vx == vy
  | .unequal x y => do
    let vx ← register x
    let vy ← register y
    return vx != vy
  | .keyDown x => keyTest x
  | .keyUp x => do
    let down ← keyTest x
    return !down

/-! ## Arithmetic and transfers -/

/-- Combines two registers; the flag is written after the result and so wins in `VF`. -/
def combine (op : Alu) (x y : Nat) : Work StepError Unit := do
  let a ← register x
  let b ← if op.readsSecond then register y else pure 0
  setRegister x (op.result a b)
  match op.flag? a b with
  | some flag => setRegister flagRegister flag
  | none => return

/-- Puts a random byte, masked, into a register. -/
def randomByte (x : Nat) (kk : UInt8) : Work StepError Unit := do
  let v ← look fun m => m.random.peek
  change fun m => { m with random := m.random.advance }
  setRegister x (v &&& kk)

/-- Adds a register to the index register. -/
def addIndex (x : Nat) : Work StepError Unit := do
  let vx ← register x
  let address ← sum (← look Machine.index) vx.toNat
  change fun m => { m with index := wrap address }

/-- Points the index register at the glyph of the digit in a register, with a warning when the
register holds no digit. The rule for the address goes on past the last glyph. -/
def loadGlyph (x : Nat) : Work StepError Unit := do
  let vx ← register x
  if Glyph.count ≤ vx.toNat then say (.noGlyph x vx)
  let address ← sum Glyph.location (vx.toNat * Glyph.height)
  change fun m => { m with index := address }

/-- The three decimal digits of a byte. -/
def decimalDigits (v : UInt8) : List UInt8 :=
  [v / 100, v / 10 % 10, v % 10]

/-- Stores the decimal digits of a register. The place is checked before the register is read. -/
def storeDecimal (x : Nat) : Work StepError Unit := do
  let start ← look Machine.index
  checkRange start 3
  let v ← register x
  writeBlock .fault start (decimalDigits v)

/-- Stores the registers up to `Vx`. The place is checked before the registers are read. -/
def storeRegisters (x : Nat) : Work StepError Unit := do
  let start ← look Machine.index
  let count ← sum x 1
  checkRange start count
  let vs ← demand (← look fun m => m.registers.block? 0 count) (.fault (.noRegister x))
  writeBlock .fault start vs

/-- Loads the registers up to `Vx`. -/
def loadRegisters (x : Nat) : Work StepError Unit := do
  let start ← look Machine.index
  let count ← sum x 1
  checkRange start count
  let vs ← readBlock .fault start count
  let registers ← demand (← look fun m => m.registers.setBlock? 0 vs) (.fault (.noRegister x))
  change fun m => { m with registers }

/-! ## Drawing -/

/-- Flips a pixel of the display. A pixel that was lit raises the flag. -/
def flipPixel (x y : Nat) : Work StepError Unit := do
  let lit ← demand (← look fun m => m.display.get? x y) (.fault .offDisplay)
  if lit then setRegister flagRegister 1
  let display ← demand (← look fun m => m.display.set? x y !lit) (.fault .offDisplay)
  change fun m => { m with display }

/-- Draws the given columns of one row of a sprite, from the left to the right, up to the right edge
of the display. -/
def drawRow (left y : Nat) (row : UInt8) : List Nat → Work StepError Unit
  | [] => return
  | column :: columns => do
    let x ← sum left column
    -- the columns after one that is off the display are off it too
    if x < (← look fun m => m.display.width) then
      if Sprite.hasPixel row column then flipPixel x y
      drawRow left y row columns

/-- Draws rows of a sprite, from the given one downwards, up to the bottom edge of the display. -/
def drawRows (left top : Nat) : Nat → List UInt8 → Work StepError Unit
  | _, [] => return
  | k, row :: rows => do
    let y ← sum top k
    if y < (← look fun m => m.display.height) then
      drawRow left y row (List.range Sprite.width)
      drawRows left top (k + 1) rows

/-- Draws `n` rows of the sprite at the index register to `(Vx, Vy)`. The flag register tells
whether a lit pixel was hit. -/
def draw (x y n : Nat) : Work StepError Unit := do
  let left ← register x
  let top ← register y
  let start ← look Machine.index
  checkRange start n
  -- the coordinates are in hand, so the flag may be one of their registers
  setRegister flagRegister 0
  let rows ← readBlock .fault start n
  drawRows left.toNat top.toNat 0 rows

/-! ## The instructions -/

/-- Applies the meaning of an instruction. -/
def execute : Instruction → Work StepError Effect
  | .sys nnn => do
    say (.routineIgnored nnn)
    return {}
  | .clear => do
    change fun m => { m with display := m.display.clear }
    return { hint := .redraw }
  | .ret => do
    let address ← popReturn
    say (.returned address)
    return { flow := .jump address }
  | .jump nnn => return { flow := .jump nnn }
  | .call nnn => do
    pushReturn (← look Machine.counter)
    return { flow := .jump nnn }
  | .jumpOffset nnn => do
    let v0 ← register 0
    let target ← sum nnn v0.toNat
    return { flow := .jump target }
  | .skip c => do
    let holds ← test c
    return { flow := .skipIf holds }
  | .loadByte x kk => do
    setRegister x kk
    return {}
  | .addByte x kk => do
    let vx ← register x
    setRegister x (vx + kk)
    return {}
  | .random x kk => do
    randomByte x kk
    return {}
  | .combine op x y => do
    combine op x y
    return {}
  | .loadIndex nnn => do
    change fun m => { m with index := nnn }
    return {}
  | .addIndex x => do
    addIndex x
    return {}
  | .loadGlyph x => do
    loadGlyph x
    return {}
  | .draw x y n => do
    draw x y n
    return { hint := .redraw }
  | .readDelay x => do
    setRegister x (← look fun m => m.delay.value)
    return {}
  | .waitKey x => do
    change fun m => { m with activity := .awaitingKey x }
    return { hint := .wait }
  | .setDelay x => do
    let vx ← register x
    change fun m => { m with delay := ⟨vx⟩ }
    return {}
  | .setSound x => do
    let vx ← register x
    change fun m => { m with sound := ⟨vx⟩ }
    return {}
  | .storeDecimal x => do
    storeDecimal x
    return {}
  | .storeRegisters x => do
    storeRegisters x
    return {}
  | .loadRegisters x => do
    loadRegisters x
    return {}

/-! ## Instructions without conditions -/

section

variable {m : Machine}

theorem execute_sys (nnn : Nat) :
    execute (.sys nnn) m = { machine := m, result := .ok {}, log := [.routineIgnored nnn] } := by
  rw [execute]
  rfl

theorem execute_clear :
    execute .clear m =
      { machine := { m with display := m.display.clear }, result := .ok { hint := .redraw } } := rfl

theorem execute_jump (nnn : Nat) :
    execute (.jump nnn) m = { machine := m, result := .ok { flow := .jump nnn } } := rfl

theorem execute_loadIndex (nnn : Nat) :
    execute (.loadIndex nnn) m = { machine := { m with index := nnn }, result := .ok {} } := rfl

theorem execute_waitKey (x : Nat) :
    execute (.waitKey x) m =
      { machine := { m with activity := .awaitingKey x }, result := .ok { hint := .wait } } := rfl

end

end Work

end SpriteVM
