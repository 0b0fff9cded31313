import SpriteVM.Proofs.Failure

/-!
# Sprites, pixel by pixel

The loops of a drawing come to a formula for each pixel. `Machine.spriteBit` is the bit of the sprite
that falls on a point, and `DrewSprite` says that every pixel of the display is what it was,
exclusive-or that bit, that the flag register tells whether a lit pixel was hit, and that nothing
else changed. `draw_pixel_exact` states it for the instruction and for the step that executes it.
-/

namespace SpriteVM

namespace Machine

variable {m : Machine} {x y n px py : Nat}

/-- The bit that falls on a point when `n` rows of the sprite at the index register are drawn to
`(Vx, Vy)`. Each row is a byte with the leftmost pixel in the highest bit. -/
def spriteBit (m : Machine) (x y n px py : Nat) : Bool :=
  let left := (m.registers.cell x).toNat
  let top := (m.registers.cell y).toNat
  decide (left ≤ px ∧ px < left + 8 ∧ top ≤ py ∧ py < top + n) &&
    (m.memory.cell (m.index + (py - top))).toNat.testBit (7 - (px - left))

/-- A lit pixel of the display is hit by a sprite. -/
def SpriteHits (m : Machine) (x y n : Nat) : Prop :=
  ∃ px py, px < m.display.width ∧ py < m.display.height ∧ m.spriteBit x y n px py = true ∧
    m.display.lit px py = true

/-- The second machine is the first one with a sprite drawn. -/
structure DrewSprite (m : Machine) (x y n : Nat) (m' : Machine) : Prop where
  /-- the display has its width -/
  width : m'.display.width = m.display.width
  /-- the display has its height -/
  height : m'.display.height = m.display.height
  /-- a pixel is flipped where a bit of the sprite falls on it -/
  pixel : ∀ px py, px < m.display.width → py < m.display.height →
    m'.display.get? px py = some (m.display.lit px py ^^ m.spriteBit x y n px py)
  /-- the flag is up when a lit pixel was hit -/
  hit : m.SpriteHits x y n → m'.registers.cell 0xF = 1
  /-- and it is down when none was -/
  miss : ¬ m.SpriteHits x y n → m'.registers.cell 0xF = 0
  /-- the other registers stay -/
  registers : ∀ r, r ≠ 0xF → m'.registers.cell r = m.registers.cell r
  /-- memory stays -/
  memory : m'.memory = m.memory
  /-- the index register stays -/
  index : m'.index = m.index

theorem spritePoints_eq_spriteBit (h : m.index + n ≤ memorySize) :
    m.spritePoints x y n px py = m.spriteBit x y n px py := by
  refine Bool.eq_iff_iff.2 ?_
  rw [spritePoints_iff h]
  simp only [spriteBit, Sprite.area, Sprite.hasPixel, Sprite.width, Bool.and_eq_true,
    decide_eq_true_eq, and_assoc]

/-- A sprite hits a lit pixel when it meets one. -/
theorem meets_spritePoints (h : m.index + n ≤ memorySize) :
    m.display.meets (m.spritePoints x y n) = true ↔ m.SpriteHits x y n := by
  rw [Display.meets_iff]
  refine exists₂_congr fun px py => ?_
  rw [spritePoints_eq_spriteBit h]
  constructor
  · rintro ⟨hbit, hlit⟩
    have hgrid := Display.contains_of_lit hlit
    simp only [Display.contains, Bool.and_eq_true, decide_eq_true_eq] at hgrid
    exact ⟨hgrid.1, hgrid.2, hbit, hlit⟩
  · rintro ⟨-, -, hbit, hlit⟩
    exact ⟨hbit, hlit⟩

/-- The flag register is written before and after the loops. -/
theorem flag_drawn (m : Machine) (x y n : Nat) :
    (m.drawn x y n).registers.cell flagRegister =
      if m.display.meets (m.spritePoints x y n) then 1 else 0 := by
  rw [drawn, flip]
  split
  · exact Bank.cell_put (by decide) 1 flagRegister
  · exact Bank.cell_put (by decide) 0 flagRegister

theorem drewSprite_drawn (h : m.index + n ≤ memorySize) : m.DrewSprite x y n (m.drawn x y n) where
  width := rfl
  height := rfl
  pixel := by
    intro px py hpx hpy
    have hgrid : m.display.contains px py := by simp [Display.contains, hpx, hpy]
    have hflip : (m.drawn x y n).display.get? px py = _ :=
      Display.get?_flip m.display (m.spritePoints x y n) px py
    rw [hflip, Display.get?_eq_some hgrid, Option.map_some, spritePoints_eq_spriteBit h]
  hit := by
    intro hhits
    exact (flag_drawn m x y n).trans (if_pos ((meets_spritePoints h).2 hhits))
  miss := by
    intro hmisses
    refine (flag_drawn m x y n).trans (if_neg ?_)
    rwa [meets_spritePoints h]
  registers := fun r hr => cell_drawn m x y n hr
  memory := rfl
  index := rfl

/-- A step that draws a sprite. The machine keeps running. -/
theorem next_draw (ha : m.activity = .running) (hi : m.instruction = .ok (.draw x y n))
    (h : m.index + n ≤ memorySize) :
    m.next.machine.activity = .running ∧ m.next.result = .ok .redraw ∧
      m.DrewSprite x y n m.next.machine := by
  obtain ⟨hx, hy, -⟩ := inRange_of_instruction hi
  have hnext := next_of_execute ha hi (Work.execute_draw hx hy h) (wrap_lt _)
  have hdrew := drewSprite_drawn (m := m.fetched) (x := x) (y := y) h
  rw [hnext]
  -- what a drawing reads and writes does not include the program counter
  exact ⟨ha, rfl, { hdrew with }⟩

/-- **Sprites are drawn pixel by pixel.** Take a machine in any state, with a display of any size,
and let the rows of the sprite lie in memory. Then the instruction succeeds and changes the display
and the registers alone. Every pixel of the display becomes what it was exclusive-or the bit of the
sprite that falls on it, where the coordinates are those that the registers had before; nothing wraps
around, and bits beyond the edges are dropped. The flag register tells whether a lit pixel was hit,
and the other registers, memory and the index register stay. The step that executes the instruction
does the same. -/
theorem draw_pixel_exact :
    (∀ (m : Machine) (x y n : Nat), x < 16 → y < 16 → m.index + n ≤ 4096 →
      ∃ m', Work.execute (.draw x y n) m = { machine := m', result := .ok { hint := .redraw } } ∧
        m' = { m with display := m'.display, registers := m'.registers } ∧
        m.DrewSprite x y n m') ∧
    ∀ (m : Machine) (x y n : Nat), m.activity = .running → m.instruction = .ok (.draw x y n) →
      m.index + n ≤ 4096 → m.next.result = .ok .redraw ∧ m.DrewSprite x y n m.next.machine := by
  constructor
  · intro m x y n hx hy h
    exact ⟨m.drawn x y n, Work.execute_draw hx hy h, rfl, drewSprite_drawn h⟩
  · intro m x y n ha hi h
    exact (next_draw ha hi h).2

/-- The glyph of zero at a corner of a small display, with the flag register as both coordinates. The
glyph hits a lit pixel, and most of it is beyond the edges. -/
theorem draw_pixel_exact_clipped :
    ∃ m m' : Machine, m.activity = .running ∧ m.instruction = .ok (.draw 0xF 0xF 5) ∧
      m.index + 5 ≤ 4096 ∧
      Work.execute (.draw 0xF 0xF 5) m = { machine := m', result := .ok { hint := .redraw } } ∧
      m.next.result = .ok .redraw ∧
      ∀ t ∈ [m', m.next.machine], t.display.get? 2 2 = some true ∧
        t.display.get? 3 2 = some false ∧ t.display.get? 0 0 = some false ∧
        t.registers.cell 0xF = 1 := by
  obtain ⟨m, hactivity, hcounter, hhigh, hlow, hdisplay, hflag, hindex, hrow⟩ : ∃ m : Machine,
      m.activity = .running ∧ m.counter = programStart ∧ m.memory.cell programStart = 0xDF ∧
      m.memory.cell (programStart + 1) = 0xF5 ∧ m.display = (Display.blank 4 3).paint 3 2 true ∧
      m.registers.cell 0xF = 2 ∧ m.index = Glyph.location ∧
      m.memory.cell Glyph.location = 0xF0 := by
    refine ⟨{ (blank ((Display.blank 4 3).paint 3 2 true) .released (.cycle #[])).loaded
        ⟨"draw", [0xDF, 0xF5]⟩ with
      registers := Bank.zero.put 0xF 2, index := Glyph.location }, rfl, rfl,
      cell_loaded (i := 0) (by decide), cell_loaded (i := 1) (by decide), rfl, rfl, rfl, ?_⟩
    refine (cell_loaded_of_lt (by decide)).trans ?_
    show (Bank.fill _ _ _).cell _ = _
    rw [Bank.cell, Bank.get?_fill]
    rfl
  have hinstruction : m.instruction = .ok (.draw 0xF 0xF 5) :=
    instruction_of_cells hcounter (by decide) hhigh hlow
  have hfits : m.index + 5 ≤ 4096 := by
    rw [hindex]
    decide
  have hbit : ∀ px py, m.spriteBit 0xF 0xF 5 px py = true ↔ (2 ≤ px ∧ px < 10 ∧ 2 ≤ py ∧ py < 7) ∧
      (m.memory.cell (Glyph.location + (py - 2))).toNat.testBit (7 - (px - 2)) = true := by
    intro px py
    rw [spriteBit, hflag, hindex, Bool.and_eq_true, decide_eq_true_eq]
    rfl
  have hset : m.spriteBit 0xF 0xF 5 2 2 = true ∧ m.spriteBit 0xF 0xF 5 3 2 = true := by
    rw [hbit, hbit, Nat.sub_self, Nat.add_zero, hrow]
    decide
  have hclear : m.spriteBit 0xF 0xF 5 0 0 = false := by
    rw [← Bool.not_eq_true, hbit]
    omega
  have hlit : m.display.lit 3 2 = true := by
    rw [hdisplay]
    decide
  have hdrawn : ∀ t : Machine, m.DrewSprite 0xF 0xF 5 t → t.display.get? 2 2 = some true ∧
      t.display.get? 3 2 = some false ∧ t.display.get? 0 0 = some false ∧
      t.registers.cell 0xF = 1 := by
    intro t hdrew
    have hpixel := hdrew.pixel
    rw [hdisplay] at hpixel
    refine ⟨?_, ?_, ?_, hdrew.hit ⟨3, 2, ?_, ?_, hset.2, hlit⟩⟩
    · rw [hpixel 2 2 (by decide) (by decide), hset.1]
      decide
    · rw [hpixel 3 2 (by decide) (by decide), hset.2]
      decide
    · rw [hpixel 0 0 (by decide) (by decide), hclear]
      decide
    · rw [hdisplay]
      decide
    · rw [hdisplay]
      decide
  obtain ⟨m', hm', -, hdrew⟩ := draw_pixel_exact.1 m 0xF 0xF 5 (by decide) (by decide) hfits
  obtain ⟨hresult, hdrew'⟩ := draw_pixel_exact.2 m 0xF 0xF 5 hactivity hinstruction hfits
  refine ⟨m, m', hactivity, hinstruction, hfits, hm', hresult, ?_⟩
  exact List.forall_mem_cons.2 ⟨hdrawn m' hdrew, List.forall_mem_singleton.2 (hdrawn _ hdrew')⟩

end Machine

end SpriteVM
