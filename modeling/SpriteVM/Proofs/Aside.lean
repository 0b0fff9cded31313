import SpriteVM.Proofs.Subroutine

/-!
# Fields that work leaves aside

Three instructions look at a timer and one takes a random byte. Whatever else the machine does is
the same with other timers and with another random source, and leaves these as they are.

* `Machine.aside` changes the timers and the random source in some way. `Work.Commutes` says of some
  work that such a change can as well be made after it.
* `Commutes` is closed under sequences, hence holds of every instruction that uses none of the
  changed fields (`Commutes.execute`), and of a poll.
* So a step commutes with a change of fields that it does not use (`next_aside`).
-/

namespace SpriteVM

/-- Whether an instruction reads or sets a timer. -/
def Instruction.usesTimer : Instruction → Bool
  | .readDelay _ | .setDelay _ | .setSound _ => true
  | _ => false

/-- Whether an instruction takes a random byte. -/
def Instruction.isRandom : Instruction → Bool
  | .random .. => true
  | _ => false

/-- The machine with its timers and its random source changed. -/
def Machine.aside (delay sound : Timer → Timer) (random : ByteSource → ByteSource) (m : Machine) :
    Machine :=
  { m with delay := delay m.delay, sound := sound m.sound, random := random m.random }

namespace Work

variable {ε α β : Type} {g : Machine → Machine}

/-- The work does the same on a changed machine, and the change stays. -/
def Commutes (g : Machine → Machine) (w : Work ε α) : Prop :=
  ∀ m, w (g m) = { w m with machine := g (w m).machine }

namespace Commutes

/-! ## Sequences -/

theorem pure (a : α) : (Pure.pure a : Work ε α).Commutes g := fun _ => rfl

theorem fail (e : ε) : (Work.fail e : Work ε α).Commutes g := fun _ => rfl

theorem say (message : Message) : (Work.say message : Work ε Unit).Commutes g := fun _ => rfl

/-- A look at something that is not changed. -/
theorem look {f : Machine → α} (hf : ∀ m, f (g m) = f m) : (Work.look f : Work ε α).Commutes g := by
  intro m
  rw [look_apply, look_apply, hf]

/-- A change of something else. -/
theorem change {f : Machine → Machine} (hf : ∀ m, f (g m) = g (f m)) :
    (Work.change f : Work ε Unit).Commutes g := by
  intro m
  rw [change_apply, change_apply, hf]

theorem bind {w : Work ε α} {f : α → Work ε β} (hw : w.Commutes g) (hf : ∀ a, (f a).Commutes g) :
    (w >>= f).Commutes g := by
  intro m
  have hother := hw m
  cases h : (w m).result with
  | error e => rw [bind_of_error h, bind_of_error (e := e) (by rw [hother, h]), hother]
  | ok a =>
    rw [bind_of_ok h, bind_of_ok (a := a) (by rw [hother, h]), hother]
    simp only [hf a (w m).machine]

theorem demand (value? : Option α) (e : ε) : (Work.demand value? e).Commutes g := by
  cases value? with
  | none => exact fail e
  | some a => exact pure a

theorem ite {c : Prop} [Decidable c] {w w' : Work ε α} (hw : w.Commutes g) (hw' : w'.Commutes g) :
    (if c then w else w').Commutes g := by
  split
  · exact hw
  · exact hw'

theorem sum (a b : Nat) : (Work.sum a b).Commutes g :=
  ite (pure _) (fail _)

theorem checkRange (start count : Nat) : (Work.checkRange start count).Commutes g :=
  bind (sum _ _) fun _ => ite (fail _) (pure _)

/-! ## Accesses -/

variable {delay sound : Timer → Timer} {random : ByteSource → ByteSource}

theorem register (x : Nat) : (Work.register x).Commutes (Machine.aside delay sound random) :=
  bind (look fun _ => rfl) fun _ => demand _ _

theorem setRegister (x : Nat) (v : UInt8) :
    (Work.setRegister x v).Commutes (Machine.aside delay sound random) :=
  bind (look fun _ => rfl) fun _ => bind (demand _ _) fun _ => change fun _ => rfl

theorem readBlock (fault : Fault → ε) (start count : Nat) :
    (Work.readBlock fault start count).Commutes (Machine.aside delay sound random) :=
  bind (look fun _ => rfl) fun _ => demand _ _

theorem writeBlock (fault : Fault → ε) (start : Nat) (bytes : List UInt8) :
    (Work.writeBlock fault start bytes).Commutes (Machine.aside delay sound random) :=
  bind (look fun _ => rfl) fun _ => bind (demand _ _) fun _ => change fun _ => rfl

theorem pushReturn (address : Nat) :
    (Work.pushReturn address).Commutes (Machine.aside delay sound random) :=
  bind (look fun _ => rfl) fun _ => ite (fail _) (change fun _ => rfl)

theorem popReturn : Work.popReturn.Commutes (Machine.aside delay sound random) := by
  refine bind (look fun _ => rfl) fun stack => ?_
  cases stack with
  | nil => exact fail _
  | cons address stack => exact bind (change fun _ => rfl) fun _ => pure _

theorem advance : Work.advance.Commutes (Machine.aside delay sound random) :=
  bind (look fun _ => rfl) fun _ => bind (sum _ _) fun _ => change fun _ => rfl

theorem follow (flow : Flow) : (Work.follow flow).Commutes (Machine.aside delay sound random) := by
  cases flow with
  | next => exact bind (look fun _ => rfl) fun _ => change fun _ => rfl
  | skip => exact advance
  | jump target => exact change fun _ => rfl

/-! ## Instructions -/

theorem keyTest (x : Nat) : (Work.keyTest x).Commutes (Machine.aside delay sound random) :=
  bind (register x) fun _ => ite (bind (say _) fun _ => look fun _ => rfl) (look fun _ => rfl)

theorem test (c : Condition) : (Work.test c).Commutes (Machine.aside delay sound random) := by
  cases c with
  | equalByte x kk | unequalByte x kk => exact bind (register x) fun _ => pure _
  | equal x y | unequal x y =>
    exact bind (register x) fun _ => bind (register y) fun _ => pure _
  | keyDown x => exact keyTest x
  | keyUp x => exact bind (keyTest x) fun _ => pure _

theorem combine (op : Alu) (x y : Nat) :
    (Work.combine op x y).Commutes (Machine.aside delay sound random) := by
  refine bind (register x) fun a => ?_
  refine ite (bind (register y) fun b => ?_) (bind (pure 0) fun b => ?_)
  -- the result and the flag are written in the same way with and without a second operand
  all_goals
    refine bind (setRegister x _) fun _ => ?_
    cases op.flag? a b with
    | some flag => exact setRegister _ _
    | none => exact pure _

theorem flipPixel (x y : Nat) : (Work.flipPixel x y).Commutes (Machine.aside delay sound random) := by
  refine bind (look fun _ => rfl) fun _ => bind (demand _ _) fun lit => ?_
  have hwrite : (do
      let display ← Work.demand (← Work.look fun m => m.display.set? x y !lit) (.fault .offDisplay)
      Work.change fun m => { m with display } :
        Work StepError Unit).Commutes (Machine.aside delay sound random) :=
    bind (look fun _ => rfl) fun _ => bind (demand _ _) fun _ => change fun _ => rfl
  exact ite (bind (setRegister _ _) fun _ => hwrite) hwrite

/-- The induction is on the columns that are left. -/
theorem drawRow (left y : Nat) (row : UInt8) (columns : List Nat) :
    (Work.drawRow left y row columns).Commutes (Machine.aside delay sound random) := by
  induction columns with
  | nil => exact pure _
  | cons column columns ih =>
    refine bind (sum _ _) fun x => bind (look fun _ => rfl) fun width => ?_
    exact ite (ite (bind (flipPixel x y) fun _ => ih) ih) (pure _)

/-- The induction is on the rows that are left. -/
theorem drawRows (left top k : Nat) (rows : List UInt8) :
    (Work.drawRows left top k rows).Commutes (Machine.aside delay sound random) := by
  induction rows generalizing k with
  | nil => exact pure _
  | cons row rows ih =>
    refine bind (sum _ _) fun y => bind (look fun _ => rfl) fun height => ?_
    exact ite (bind (drawRow left y row _) fun _ => ih (k + 1)) (pure _)

theorem draw (x y n : Nat) : (Work.draw x y n).Commutes (Machine.aside delay sound random) :=
  bind (register x) fun _ => bind (register y) fun _ => bind (look fun _ => rfl) fun _ =>
    bind (checkRange _ n) fun _ => bind (setRegister _ _) fun _ => bind (readBlock _ _ n) fun _ =>
      drawRows _ _ _ _

/-- Every instruction commutes with a change of the fields that it does not use. -/
theorem execute {i : Instruction} (htimer : i.usesTimer → delay = id ∧ sound = id)
    (hrandom : i.isRandom → random = id) :
    (Work.execute i).Commutes (Machine.aside delay sound random) := by
  cases i with
  | sys nnn => exact bind (say _) fun _ => pure _
  | clear => exact bind (change fun _ => rfl) fun _ => pure _
  | ret => exact bind popReturn fun _ => bind (say _) fun _ => pure _
  | jump nnn => exact pure _
  | call nnn => exact bind (look fun _ => rfl) fun _ => bind (pushReturn _) fun _ => pure _
  | jumpOffset nnn => exact bind (register 0) fun _ => bind (sum _ _) fun _ => pure _
  | skip c => exact bind (test c) fun _ => pure _
  | loadByte x kk => exact bind (setRegister x kk) fun _ => pure _
  | addByte x kk => exact bind (register x) fun _ => bind (setRegister x _) fun _ => pure _
  | combine op x y => exact bind (combine op x y) fun _ => pure _
  | loadIndex nnn => exact bind (change fun _ => rfl) fun _ => pure _
  | addIndex x =>
    have hindex : (Work.addIndex x).Commutes (Machine.aside delay sound random) :=
      bind (register x) fun _ => bind (look fun _ => rfl) fun _ => bind (sum _ _) fun _ =>
        change fun _ => rfl
    exact bind hindex fun _ => pure _
  | loadGlyph x =>
    have haddress : ∀ vx : UInt8, (do
        let address ← Work.sum Glyph.location (vx.toNat * Glyph.height)
        Work.change fun m => { m with index := address } :
          Work StepError Unit).Commutes (Machine.aside delay sound random) :=
      fun vx => bind (sum _ _) fun _ => change fun _ => rfl
    have hglyph : (Work.loadGlyph x).Commutes (Machine.aside delay sound random) :=
      bind (register x) fun vx => ite (bind (say _) fun _ => haddress vx) (haddress vx)
    exact bind hglyph fun _ => pure _
  | draw x y n => exact bind (draw x y n) fun _ => pure _
  | waitKey x => exact bind (change fun _ => rfl) fun _ => pure _
  | storeDecimal x =>
    have hstore : (Work.storeDecimal x).Commutes (Machine.aside delay sound random) :=
      bind (look fun _ => rfl) fun _ => bind (checkRange _ _) fun _ => bind (register x) fun _ =>
        writeBlock _ _ _
    exact bind hstore fun _ => pure _
  | storeRegisters x =>
    have hstore : (Work.storeRegisters x).Commutes (Machine.aside delay sound random) :=
      bind (look fun _ => rfl) fun _ => bind (sum _ _) fun _ => bind (checkRange _ _) fun _ =>
        bind (look fun _ => rfl) fun _ => bind (demand _ _) fun _ => writeBlock _ _ _
    exact bind hstore fun _ => pure _
  | loadRegisters x =>
    have hload : (Work.loadRegisters x).Commutes (Machine.aside delay sound random) :=
      bind (look fun _ => rfl) fun _ => bind (sum _ _) fun _ => bind (checkRange _ _) fun _ =>
        bind (readBlock _ _ _) fun _ => bind (look fun _ => rfl) fun _ => bind (demand _ _) fun _ =>
          change fun _ => rfl
    exact bind hload fun _ => pure _
  -- what is left uses a field, so that this one is not changed
  | random x kk =>
    obtain rfl := hrandom rfl
    have hbyte : (Work.randomByte x kk).Commutes (Machine.aside delay sound id) :=
      bind (look fun _ => rfl) fun _ => bind (change fun _ => rfl) fun _ => setRegister x _
    exact bind hbyte fun _ => pure _
  | readDelay x =>
    obtain ⟨rfl, rfl⟩ := htimer rfl
    exact bind (look fun _ => rfl) fun _ => bind (setRegister x _) fun _ => pure _
  | setDelay x =>
    obtain ⟨rfl, rfl⟩ := htimer rfl
    exact bind (register x) fun _ => bind (change fun _ => rfl) fun _ => pure _
  | setSound x =>
    obtain ⟨rfl, rfl⟩ := htimer rfl
    exact bind (register x) fun _ => bind (change fun _ => rfl) fun _ => pure _

theorem perform {i : Instruction} (htimer : i.usesTimer → delay = id ∧ sound = id)
    (hrandom : i.isRandom → random = id) :
    (Work.perform i).Commutes (Machine.aside delay sound random) :=
  bind (execute htimer hrandom) fun _ => bind (follow _) fun _ => pure _

theorem poll (r : Nat) : (Work.poll r).Commutes (Machine.aside delay sound random) := by
  refine bind (look fun _ => rfl) fun key? => ?_
  cases key? with
  | none => exact pure _
  | some key =>
    exact bind (say _) fun _ => bind (setRegister r _) fun _ =>
      bind (change fun _ => rfl) fun _ => pure _

end Commutes

end Work

namespace Machine

variable {m : Machine} {delay sound : Timer → Timer} {random : ByteSource → ByteSource}

/-! ## Steps -/

/-- An instruction that uses a timer or takes a random byte meets no obstacle. -/
theorem executes?_of_uses {i : Instruction} (hm : m.Valid) (ha : m.activity = .running)
    (hi : m.instruction = .ok i) (h : i.usesTimer ∨ i.isRandom) : m.executes? .next = some i := by
  refine (executes?_next hm).2 ⟨ha, hi, ?_⟩
  cases i with
  | readDelay x | setDelay x | setSound x | random x kk => rfl
  | _ => rcases h with h | h <;> cases h

/-- **Step lemma.** A step is the same with the fields changed that it does not use, and the change
stays. -/
theorem next_aside (hm : m.Valid)
    (htimer : ∀ i, m.executes? .next = some i → i.usesTimer → delay = id ∧ sound = id)
    (hrandom : ∀ i, m.executes? .next = some i → i.isRandom → random = id) :
    (m.aside delay sound random).next =
      { m.next with machine := m.next.machine.aside delay sound random } := by
  cases ha : m.activity with
  | awaitingKey r =>
    have ha' : (m.aside delay sound random).activity = .awaitingKey r := ha
    rw [next_awaiting ha, next_awaiting ha']
    exact Work.Commutes.poll r m
  | running =>
    have ha' : (m.aside delay sound random).activity = .running := ha
    rw [next_running ha, next_running ha']
    cases hi : m.instruction with
    | error e =>
      rcases instruction_eq_error.1 hi with ⟨hle, rfl⟩ | ⟨hlt, hw, rfl⟩
      · rw [Work.cycle_of_noWord hle, Work.cycle_of_noWord (m := m.aside delay sound random) hle]
        rfl
      · rw [Work.cycle_of_invalidWord hlt hw,
          Work.cycle_of_invalidWord (m := m.aside delay sound random) hlt hw]
        rfl
    | ok i =>
      have hi' : (m.aside delay sound random).instruction = .ok i := hi
      have hp : Work.perform i (m.aside delay sound random).fetched = _ :=
        Work.Commutes.perform (fun h => htimer i (executes?_of_uses hm ha hi (.inl h)) h)
          (fun h => hrandom i (executes?_of_uses hm ha hi (.inr h)) h) m.fetched
      rw [Work.cycle_of_ok hi, Work.cycle_of_ok hi', hp]
      rfl

theorem Valid.aside (hm : m.Valid) : (m.aside delay sound random).Valid :=
  ⟨hm.counter, hm.index, hm.depth, hm.stack, hm.awaited⟩

/-- What a step executes does not depend on the timers and the random source. -/
theorem executes?_aside (hm : m.Valid) :
    (m.aside delay sound random).executes? .next = m.executes? .next := by
  have hobstacle : ∀ i, (m.aside delay sound random).fetched.obstacle? i = m.fetched.obstacle? i := by
    intro i
    cases i <;> rfl
  refine Option.ext fun i => ?_
  rw [executes?_next hm.aside, executes?_next hm, hobstacle]
  rfl

end Machine

end SpriteVM
