import SpriteVM.Proofs.Sprites

/-!
# Sprites on top of each other

A drawing flips the points of its sprite, so drawings can be undone and exchanged.

* Drawing a sprite a second time takes it away again (`draw_draw_undoes`). The two flags together
  tell whether any of the sprite was to be seen.
* `Machine.Draws` records the sprites that are drawn on the way from one machine to another,
  whatever happens besides. Afterwards the pixels are flipped that an odd number of these sprites
  cover (`Draws.display_eq`), and this number does not depend on an order.
* `Work.strokes` draws sprites at the corners that registers name. These registers are not the flag
  register, so each sprite is placed alike whatever was drawn before it (`strokes_apply`).

`draw_in_any_order` collects what follows.
-/

namespace SpriteVM

/-! ## Placed sprites -/

/-- The rows of a sprite and the place of its top left corner. -/
structure Placement where
  /-- the column of the corner -/
  left : Nat
  /-- the row of the corner -/
  top : Nat
  /-- the rows from top to bottom -/
  rows : List UInt8
  deriving DecidableEq, Repr

namespace Placement

/-- The points of a placed sprite. -/
def points (p : Placement) : Nat → Nat → Bool :=
  Sprite.points p.left p.top p.rows

/-- The points that an odd number of placed sprites cover. -/
def overlay (ps : List Placement) (i j : Nat) : Bool :=
  ps.countP (fun p => p.points i j) % 2 == 1

theorem overlay_nil : overlay [] = fun _ _ => false := rfl

/-- One more sprite turns its own points over. -/
theorem overlay_cons (p : Placement) (ps : List Placement) :
    overlay (p :: ps) = fun i j => p.points i j ^^ overlay ps i j := by
  funext i j
  simp only [overlay, List.countP_cons]
  rcases Nat.mod_two_eq_zero_or_one (ps.countP fun p => p.points i j) with h | h <;>
    cases p.points i j <;> simp [Nat.add_mod, h]

/-- The order of the sprites does not count. -/
theorem overlay_perm {ps qs : List Placement} (h : ps.Perm qs) : overlay ps = overlay qs := by
  funext i j
  rw [overlay, overlay, h.countP_eq]

end Placement

namespace Machine

variable {m m' : Machine} {x y n : Nat}

/-! ## Twice the same sprite -/

/-- An unlit pixel of the display is hit by a sprite. -/
def SpriteMisses (m : Machine) (x y n : Nat) : Prop :=
  ∃ px py, px < m.display.width ∧ py < m.display.height ∧ m.spriteBit x y n px py = true ∧
    m.display.lit px py = false

/-- A pixel of the display is hit by a sprite. -/
def SpriteShows (m : Machine) (x y n : Nat) : Prop :=
  ∃ px py, px < m.display.width ∧ py < m.display.height ∧ m.spriteBit x y n px py = true

/-- A sprite that was drawn to the first machine is drawn again and gone. -/
structure Undone (m : Machine) (x y n : Nat) (m₁ m₂ : Machine) : Prop where
  /-- every pixel is as before -/
  display : m₂.display = m.display
  /-- the first flag tells whether a lit pixel was hit -/
  first : m₁.registers.cell 0xF = 1 ↔ m.SpriteHits x y n
  /-- the second flag tells whether a pixel was hit that was unlit before -/
  second : m₂.registers.cell 0xF = 1 ↔ m.SpriteMisses x y n
  /-- one of the flags is up if the sprite has a visible bit -/
  either : m₁.registers.cell 0xF = 1 ∨ m₂.registers.cell 0xF = 1 ↔ m.SpriteShows x y n

/-- A visible bit hits a lit pixel or an unlit one. -/
theorem spriteShows_iff : m.SpriteShows x y n ↔ m.SpriteHits x y n ∨ m.SpriteMisses x y n := by
  constructor
  · rintro ⟨px, py, hpx, hpy, hbit⟩
    cases hlit : m.display.lit px py with
    | true => exact .inl ⟨px, py, hpx, hpy, hbit, hlit⟩
    | false => exact .inr ⟨px, py, hpx, hpy, hbit, hlit⟩
  · rintro (⟨px, py, hpx, hpy, hbit, -⟩ | ⟨px, py, hpx, hpy, hbit, -⟩) <;>
      exact ⟨px, py, hpx, hpy, hbit⟩

/-- The flag is up exactly when a lit pixel was hit. -/
theorem DrewSprite.flag_iff (h : m.DrewSprite x y n m') :
    m'.registers.cell 0xF = 1 ↔ m.SpriteHits x y n := by
  constructor
  · intro hup
    refine Classical.byContradiction fun hmisses => ?_
    exact absurd ((h.miss hmisses).symm.trans hup) (by decide)
  · exact h.hit

theorem DrewSprite.lit (h : m.DrewSprite x y n m') {px py : Nat} (hpx : px < m.display.width)
    (hpy : py < m.display.height) :
    m'.display.lit px py = (m.display.lit px py ^^ m.spriteBit x y n px py) := by
  rw [Display.lit, h.pixel px py hpx hpy, Option.getD_some]

/-- A drawing leaves its sprite where it was, for a second drawing. -/
theorem DrewSprite.spriteBit (h : m.DrewSprite x y n m') (hx : x ≠ flagRegister)
    (hy : y ≠ flagRegister) (px py : Nat) : m'.spriteBit x y n px py = m.spriteBit x y n px py := by
  rw [Machine.spriteBit, h.registers x hx, h.registers y hy, h.memory, h.index, Machine.spriteBit]

/-- **Drawing twice.** A sprite that is drawn again is taken away. -/
theorem DrewSprite.undone {m₁ m₂ : Machine} (h₁ : m.DrewSprite x y n m₁)
    (h₂ : m₁.DrewSprite x y n m₂) (hx : x ≠ flagRegister) (hy : y ≠ flagRegister) :
    m.Undone x y n m₁ m₂ := by
  have hsecond : m₁.SpriteHits x y n ↔ m.SpriteMisses x y n := by
    unfold SpriteHits SpriteMisses
    refine exists₂_congr fun px py => ?_
    rw [h₁.width, h₁.height, h₁.spriteBit hx hy]
    refine and_congr_right fun hpx => and_congr_right fun hpy => and_congr_right fun hbit => ?_
    -- where a bit falls, the first drawing turned the pixel over
    rw [h₁.lit hpx hpy, hbit, Bool.xor_true, Bool.not_eq_true']
  have hflags : m₂.registers.cell 0xF = 1 ↔ m.SpriteMisses x y n := h₂.flag_iff.trans hsecond
  refine ⟨?_, h₁.flag_iff, hflags, ?_⟩
  · refine Display.eq_of_get? (h₂.width.trans h₁.width) (h₂.height.trans h₁.height) fun px py => ?_
    by_cases hgrid : px < m.display.width ∧ py < m.display.height
    · obtain ⟨hpx, hpy⟩ := hgrid
      have hin : m.display.contains px py := by simp [Display.contains, hpx, hpy]
      rw [h₂.pixel px py (h₁.width ▸ hpx) (h₁.height ▸ hpy), h₁.lit hpx hpy,
        h₁.spriteBit hx hy, Bool.xor_assoc, Bool.xor_self, Bool.xor_false,
        Display.get?_eq_some hin]
    · have hout : m.display.contains px py = false := by simpa [Display.contains] using hgrid
      have hout₂ : m₂.display.contains px py = false := by
        rw [Display.contains, h₂.width, h₂.height, h₁.width, h₁.height]
        exact hout
      rw [Display.get?, Display.get?, hout, hout₂, if_neg Bool.false_ne_true,
        if_neg Bool.false_ne_true]
  · rw [h₁.flag_iff, hflags, spriteShows_iff]

/-! ## Many sprites -/

/-- The sprite that an instruction is about to draw. -/
def placed (m : Machine) (x y n : Nat) : Placement where
  left := (m.registers.cell x).toNat
  top := (m.registers.cell y).toNat
  rows := m.memory.block m.index n

/-- One machine comes from another by drawing sprites. In between anything may happen that leaves
the display. -/
inductive Draws : Machine → List Placement → Machine → Prop where
  /-- nothing more is drawn -/
  | done {m m' : Machine} (h : m'.display = m.display) : Draws m [] m'
  /-- the next sprite is drawn -/
  | draw {m m₁ m' : Machine} {x y n : Nat} {ps : List Placement} (hkeep : m₁.display = m.display)
      (hx : x < 16) (hy : y < 16) (hfits : m₁.index + n ≤ memorySize)
      (hrest : Draws (Work.execute (.draw x y n) m₁).machine ps m') :
      Draws m (m₁.placed x y n :: ps) m'

/-- **Run lemma.** The pixels are flipped that an odd number of the sprites cover. -/
theorem Draws.display_eq {ps : List Placement} (h : m.Draws ps m') :
    m'.display = m.display.flip (Placement.overlay ps) := by
  induction h with
  | done h => rw [h, Placement.overlay_nil, Display.flip_nowhere]
  | @draw m m₁ m' x y n ps hkeep hx hy hfits hrest ih =>
    have hdrawn : (Work.execute (.draw x y n) m₁).machine.display =
        m.display.flip (m₁.placed x y n).points := by
      rw [Work.execute_draw hx hy hfits, ← hkeep]
      rfl
    rw [ih, hdrawn, Display.flip_flip, Placement.overlay_cons]

/-- The same sprites leave the same picture, whatever their order. -/
theorem Draws.display_perm {m₁ m₂ : Machine} {ps qs : List Placement} (h₁ : m.Draws ps m₁)
    (h₂ : m.Draws qs m₂) (h : ps.Perm qs) : m₁.display = m₂.display := by
  rw [h₁.display_eq, h₂.display_eq, Placement.overlay_perm h]

end Machine

/-! ## Strokes of a program -/

/-- A sprite that a program draws: where its rows lie and which registers name its corner. -/
structure Stroke where
  /-- the address of the first row -/
  index : Nat
  /-- the register with the column of the corner -/
  x : Nat
  /-- the register with the row of the corner -/
  y : Nat
  /-- the number of rows -/
  n : Nat
  deriving DecidableEq, Repr

/-- The rows lie in memory, and the registers are not the one that a drawing writes. -/
structure Stroke.Fits (s : Stroke) : Prop where
  /-- the first register -/
  x : s.x < flagRegister
  /-- the second register -/
  y : s.y < flagRegister
  /-- the rows -/
  rows : s.index + s.n ≤ memorySize

/-- Draws sprites one after the other, each with the index register pointed at its rows. -/
def Work.strokes : List Stroke → Work StepError Unit
  | [] => return
  | s :: ss => do
    let _ ← execute (.loadIndex s.index)
    let _ ← execute (.draw s.x s.y s.n)
    strokes ss

namespace Machine

variable {m : Machine}

/-- The sprite of a stroke, placed by the registers. -/
def strokePlacement (m : Machine) (s : Stroke) : Placement where
  left := (m.registers.cell s.x).toNat
  top := (m.registers.cell s.y).toNat
  rows := m.memory.block s.index s.n

/-- The machine after a stroke. -/
def stroked (m : Machine) (s : Stroke) : Machine :=
  { m with index := s.index }.drawn s.x s.y s.n

/-- A stroke does not move the strokes after it: it writes the flag register only. -/
theorem strokePlacement_stroked {s t : Stroke} (ht : t.Fits) :
    (m.stroked s).strokePlacement t = m.strokePlacement t := by
  have hx : (m.stroked s).registers.cell t.x = m.registers.cell t.x :=
    cell_drawn _ s.x s.y s.n (Nat.ne_of_lt ht.x)
  have hy : (m.stroked s).registers.cell t.y = m.registers.cell t.y :=
    cell_drawn _ s.x s.y s.n (Nat.ne_of_lt ht.y)
  rw [strokePlacement, hx, hy]
  rfl

/-- Strokes succeed and draw their sprites. The induction is on the strokes that are left. -/
theorem strokes_apply {ss : List Stroke} (hfits : ∀ s ∈ ss, s.Fits) :
    ∃ m', Work.strokes ss m = { machine := m', result := .ok () } ∧
      m.Draws (ss.map m.strokePlacement) m' := by
  induction ss generalizing m with
  | nil => exact ⟨m, rfl, .done rfl⟩
  | cons s ss ih =>
    obtain ⟨hs, hss⟩ := List.forall_mem_cons.1 hfits
    have hx : s.x < 16 := Nat.lt_trans hs.x (by decide)
    have hy : s.y < 16 := Nat.lt_trans hs.y (by decide)
    have hdraw := Work.execute_draw (m := { m with index := s.index }) hx hy hs.rows
    obtain ⟨m', happly, hdraws⟩ := ih (m := m.stroked s) hss
    refine ⟨m', ?_, ?_⟩
    · rw [Work.strokes, Work.bind_of_apply (Work.execute_loadIndex s.index),
        Work.bind_of_apply hdraw]
      exact happly
    · have hsame : ss.map (m.stroked s).strokePlacement = ss.map m.strokePlacement :=
        List.map_congr_left fun t ht => strokePlacement_stroked (hss t ht)
      refine @Draws.draw m { m with index := s.index } m' s.x s.y s.n _ rfl hx hy hs.rows ?_
      rw [hdraw, ← hsame]
      exact hdraws

/-! ## Any order -/

/-- **Drawings can be undone and exchanged.** Let the coordinates of a sprite not lie in the flag
register, and let its rows lie in memory. Then drawing it twice restores the display, whatever its
size. The first flag tells whether the sprite hit a lit pixel, the second whether it hit one that
was unlit at the start, so that one of them is up if any of the sprite is to be seen. The two steps
that execute such an instruction twice do the same. Moreover, the order in which a program draws
sprites does not count, where it points the index register as needed; and the same sprites at the
same places leave the same picture in every order, whatever else happens to the machine in
between. -/
theorem draw_in_any_order :
    (∀ (m : Machine) (x y n : Nat), x < 0xF → y < 0xF → m.index + n ≤ 4096 →
      (∃ m₁ m₂,
        Work.execute (.draw x y n) m = { machine := m₁, result := .ok { hint := .redraw } } ∧
        Work.execute (.draw x y n) m₁ = { machine := m₂, result := .ok { hint := .redraw } } ∧
        m.Undone x y n m₁ m₂) ∧
      (m.activity = .running → m.instruction = .ok (.draw x y n) →
        m.next.machine.instruction = .ok (.draw x y n) →
        m.next.result = .ok .redraw ∧ m.next.machine.next.result = .ok .redraw ∧
          m.Undone x y n m.next.machine m.next.machine.next.machine)) ∧
    (∀ (m : Machine) (ss ts : List Stroke), ss.Perm ts → (∀ s ∈ ss, s.Fits) →
      ∃ m₁ m₂, Work.strokes ss m = { machine := m₁, result := .ok () } ∧
        Work.strokes ts m = { machine := m₂, result := .ok () } ∧ m₁.display = m₂.display) ∧
    ∀ (m m₁ m₂ : Machine) (ps qs : List Placement), m.Draws ps m₁ → m.Draws qs m₂ → ps.Perm qs →
      m₁.display = m₂.display := by
  refine ⟨?_, ?_, fun m m₁ m₂ ps qs h₁ h₂ => h₁.display_perm h₂⟩
  · intro m x y n hx hy h
    have hx' : x < 16 := Nat.lt_trans hx (by decide)
    have hy' : y < 16 := Nat.lt_trans hy (by decide)
    constructor
    · have hfirst := drewSprite_drawn (x := x) (y := y) h
      have hsecond := drewSprite_drawn (m := m.drawn x y n) (x := x) (y := y) h
      exact ⟨_, _, Work.execute_draw hx' hy' h, Work.execute_draw hx' hy' h,
        hfirst.undone hsecond (Nat.ne_of_lt hx) (Nat.ne_of_lt hy)⟩
    · intro ha hi hi'
      obtain ⟨ha', hresult, hfirst⟩ := next_draw ha hi h
      obtain ⟨-, hresult', hsecond⟩ := next_draw ha' hi' (hfirst.index ▸ h)
      exact ⟨hresult, hresult', hfirst.undone hsecond (Nat.ne_of_lt hx) (Nat.ne_of_lt hy)⟩
  · intro m ss ts hperm hfits
    obtain ⟨m₁, happly₁, hdraws₁⟩ := strokes_apply (m := m) hfits
    obtain ⟨m₂, happly₂, hdraws₂⟩ := strokes_apply (m := m) fun t ht => hfits t (hperm.mem_iff.2 ht)
    exact ⟨m₁, m₂, happly₁, happly₂, hdraws₁.display_perm hdraws₂ (hperm.map _)⟩

/-- The glyph of zero is drawn twice to a small blank display, by two steps as well, and together
with the glyph of one in both orders. -/
theorem draw_in_any_order_glyphs :
    ∃ m m₁ m₂ : Machine,
      Work.execute (.draw 0 1 5) m = { machine := m₁, result := .ok { hint := .redraw } } ∧
      Work.execute (.draw 0 1 5) m₁ = { machine := m₂, result := .ok { hint := .redraw } } ∧
      m₂.display = m.display ∧ m₁.registers.cell 0xF ≠ 1 ∧ m₂.registers.cell 0xF = 1 ∧
      m.next.machine.next.machine.display = m.display ∧
      (∃ t₁ t₂ : Machine,
        Work.strokes [⟨0x50, 0, 1, 5⟩, ⟨0x55, 2, 2, 5⟩] m = { machine := t₁, result := .ok () } ∧
        Work.strokes [⟨0x55, 2, 2, 5⟩, ⟨0x50, 0, 1, 5⟩] m = { machine := t₂, result := .ok () } ∧
        t₁.display = t₂.display) ∧
      ∃ p q t₁ t₂, m.Draws [p, q] t₁ ∧ m.Draws [q, p] t₂ ∧ t₁.display = t₂.display := by
  obtain ⟨m, hactivity, hcounter, hbytes, hdisplay, hregisters, hindex, hrow⟩ : ∃ m : Machine,
      m.activity = .running ∧ m.counter = programStart ∧
      (∀ i < programLimit, m.memory.cell (programStart + i) = [0xD0, 0x15, 0xD0, 0x15][i]?.getD 0) ∧
      m.display = .blank 4 3 ∧ m.registers = Bank.zero ∧ m.index = Glyph.location ∧
      m.memory.cell Glyph.location = 0xF0 := by
    refine ⟨{ (blank (.blank 4 3) .released (.cycle #[])).loaded ⟨"draw", [0xD0, 0x15, 0xD0, 0x15]⟩
      with index := Glyph.location }, rfl, rfl, fun i hi => cell_loaded hi, rfl, rfl, rfl, ?_⟩
    refine (cell_loaded_of_lt (by decide)).trans ?_
    show (Bank.fill _ _ _).cell _ = _
    rw [Bank.cell, Bank.get?_fill]
    rfl
  have hfits : m.index + 5 ≤ 4096 := by
    rw [hindex]
    decide
  have hfirst : m.instruction = .ok (.draw 0 1 5) :=
    instruction_of_data hbytes rfl hcounter (k := 0) (by decide)
  have hsecond : m.next.machine.instruction = .ok (.draw 0 1 5) := by
    have hnext := next_of_execute hactivity hfirst
      (Work.execute_draw (by decide) (by decide) hfits) (wrap_lt _)
    have hcounter' : m.next.machine.counter = programStart + 2 := by
      rw [hnext]
      show wrap (wrap (m.counter + wordSize)) = _
      rw [hcounter]
      decide
    have hmemory : m.next.machine.memory = m.memory := (next_draw hactivity hfirst hfits).2.2.memory
    exact instruction_of_data hbytes hmemory hcounter' (by decide)
  have hmisses : m.SpriteMisses 0 1 5 := by
    have hbit : m.spriteBit 0 1 5 0 0 = true := by
      rw [spriteBit, hregisters, hindex]
      show (_ && (m.memory.cell Glyph.location).toNat.testBit 7) = true
      rw [hrow]
      decide
    refine ⟨0, 0, ?_, ?_, hbit, ?_⟩ <;> rw [hdisplay] <;> decide
  have hhits : ¬ m.SpriteHits 0 1 5 := by
    rintro ⟨px, py, -, -, -, hlit⟩
    rw [hdisplay, Display.lit, Display.get?_blank] at hlit
    split at hlit <;> cases hlit
  obtain ⟨htwice, horder, hany⟩ := draw_in_any_order
  obtain ⟨⟨m₁, m₂, hm₁, hm₂, hundone⟩, hsteps⟩ := htwice m 0 1 5 (by decide) (by decide) hfits
  have hswap : [(⟨0x50, 0, 1, 5⟩ : Stroke), ⟨0x55, 2, 2, 5⟩].Perm
      [⟨0x55, 2, 2, 5⟩, ⟨0x50, 0, 1, 5⟩] := .swap ..
  have hglyphs : ∀ s ∈ [(⟨0x50, 0, 1, 5⟩ : Stroke), ⟨0x55, 2, 2, 5⟩], s.Fits := by
    simp only [List.forall_mem_cons, List.not_mem_nil, false_implies, implies_true, and_true]
    exact ⟨⟨by decide, by decide, by decide⟩, ⟨by decide, by decide, by decide⟩⟩
  obtain ⟨t₁, -, hdraws₁⟩ := strokes_apply (m := m) hglyphs
  obtain ⟨t₂, -, hdraws₂⟩ := strokes_apply (m := m) fun s hs => hglyphs s (hswap.mem_iff.2 hs)
  exact ⟨m, m₁, m₂, hm₁, hm₂, hundone.display, fun hone => hhits (hundone.first.1 hone),
    hundone.second.2 hmisses, (hsteps hactivity hfirst hsecond).2.2.display,
    horder m _ _ hswap hglyphs, _, _, t₁, t₂, hdraws₁, hdraws₂,
    hany m t₁ t₂ _ _ hdraws₁ hdraws₂ (hswap.map _)⟩

end Machine

end SpriteVM
