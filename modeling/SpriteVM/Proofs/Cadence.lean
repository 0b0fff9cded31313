import SpriteVM.Proofs.Aside

/-!
# Steps and ticks

A host steps a machine and ticks its timers at two rates of its own. As long as no instruction uses
a timer, it does not matter how the two are interleaved.

* A step that uses no timer commutes with a change of the timers (`next_withTimers`), and any
  `Interleaving` of steps and ticks comes to the steps alone with the timers counted down
  (`run_interleaving`).
* Whether a run uses a timer does not depend on the interleaving either (`untimed_interleaving`), so
  two interleavings agree as soon as one of them uses no timer (`interleavings_agree`).
-/

namespace SpriteVM

/-- The machine with other timers. -/
def Machine.withTimers (m : Machine) (delay sound : Timer) : Machine :=
  { m with delay, sound }

/-- The orders in which `n` steps and `k` ticks may happen. -/
inductive Interleaving : Nat → Nat → List Action → Prop where
  /-- nothing happens -/
  | nil : Interleaving 0 0 []
  /-- a step comes first -/
  | next {n k : Nat} {as : List Action} (h : Interleaving n k as) :
      Interleaving (n + 1) k (.next :: as)
  /-- a tick comes first -/
  | tick {n k : Nat} {as : List Action} (h : Interleaving n k as) :
      Interleaving n (k + 1) (.tick :: as)

namespace Machine

/-- What the steps among the actions come to, in order. -/
def stepResults (m : Machine) : List Action → List (Except StepError Hint)
  | [] => []
  | .next :: as => m.next.result :: m.next.machine.stepResults as
  | a :: as => (m.act a).machine.stepResults as

variable {m : Machine}

/-! ## One step -/

/-- Other timers are a change of the timers alone. -/
theorem withTimers_eq_aside (delay sound : Timer) :
    m.withTimers delay sound = m.aside (fun _ => delay) (fun _ => sound) id := rfl

/-- What a step executes does not depend on the timers. -/
theorem executes?_withTimers (hm : m.Valid) (delay sound : Timer) :
    (m.withTimers delay sound).executes? .next = m.executes? .next := by
  rw [withTimers_eq_aside, executes?_aside hm]

/-- **Step lemma.** A step that uses no timer is the same with other timers, and they stay. -/
theorem next_withTimers (hm : m.Valid)
    (h : ∀ i, m.executes? .next = some i → i.usesTimer = false) (delay sound : Timer) :
    (m.withTimers delay sound).next =
      { m.next with machine := m.next.machine.withTimers delay sound } := by
  have htimer : ∀ i, m.executes? .next = some i → i.usesTimer →
      (fun _ => delay) = (id : Timer → Timer) ∧ (fun _ => sound) = (id : Timer → Timer) := by
    intro i hi htimer
    exact absurd htimer (by simp [h i hi])
  exact next_aside hm htimer fun _ _ _ => rfl

/-! ## Interleavings -/

/-- Whether a run uses a timer does not depend on where the ticks fall. -/
theorem untimed_interleaving {n k : Nat} {as : List Action} (has : Interleaving n k as)
    (hm : m.Valid) (delay sound : Timer) :
    (∀ i ∈ (m.withTimers delay sound).executed as, i.usesTimer = false) ↔
      ∀ i ∈ m.executed (List.replicate n .next), i.usesTimer = false := by
  induction has generalizing m delay sound with
  | nil => exact Iff.rfl
  | tick _ ih => exact ih hm delay.tick sound.tick
  | next _ ih =>
    rw [List.replicate_succ, executed, executed, executes?_withTimers hm, List.forall_mem_append,
      List.forall_mem_append]
    refine and_congr_right fun hfirst => ?_
    have hnext := next_withTimers hm (fun i hi => hfirst i (Option.mem_toList.2 hi)) delay sound
    rw [act, act, hnext]
    exact ih (next_keeps hm).valid delay sound

/-- **Run lemma.** Without the use of a timer the steps do the same wherever the ticks fall, and the
ticks count the timers down. -/
theorem run_interleaving {n k : Nat} {as : List Action} (has : Interleaving n k as) (hm : m.Valid)
    (h : ∀ i ∈ m.executed (List.replicate n .next), i.usesTimer = false) (delay sound : Timer) :
    (m.withTimers delay sound).run as =
        (m.run (List.replicate n .next)).withTimers (delay.ticks k) (sound.ticks k) ∧
      (m.withTimers delay sound).stepResults as = m.stepResults (List.replicate n .next) := by
  induction has generalizing m delay sound with
  | nil => exact ⟨rfl, rfl⟩
  | tick _ ih => exact ih hm h delay.tick sound.tick
  | next _ ih =>
    rw [List.replicate_succ, executed, List.forall_mem_append] at h
    obtain ⟨hfirst, hrest⟩ := h
    have hnext := next_withTimers hm (fun i hi => hfirst i (Option.mem_toList.2 hi)) delay sound
    obtain ⟨hrun, hresults⟩ := ih (next_keeps hm).valid hrest delay sound
    constructor
    · rw [List.replicate_succ, run, run, act, act, hnext]
      exact hrun
    · rw [List.replicate_succ, stepResults, stepResults, hnext]
      exact congrArg (m.next.result :: ·) hresults

/-- **Steps and ticks are independent.** Take two interleavings of `n` steps and `k` ticks. If no
instruction that the first one executes uses a timer, then the steps of both succeed or fail in the
same way one by one, both end in the same state, and each timer has `k` less left, or nothing. -/
theorem interleavings_agree {n k : Nat} {as bs : List Action} (hm : m.Reachable)
    (has : Interleaving n k as) (hbs : Interleaving n k bs)
    (htimer : ∀ i ∈ m.executed as, i.usesTimer = false) :
    m.stepResults as = m.stepResults bs ∧ m.run as = m.run bs ∧
      (m.run as).delay.value.toNat = m.delay.value.toNat - k ∧
      (m.run as).sound.value.toNat = m.sound.value.toNat - k := by
  have hsteps := (untimed_interleaving has hm.valid m.delay m.sound).1 htimer
  obtain ⟨hrun, hresults⟩ := run_interleaving has hm.valid hsteps m.delay m.sound
  obtain ⟨hrun', hresults'⟩ := run_interleaving hbs hm.valid hsteps m.delay m.sound
  have hend : m.run as = _ := hrun
  refine ⟨hresults.trans hresults'.symm, hrun.trans hrun'.symm, ?_, ?_⟩
  · rw [hend]
    exact Timer.value_ticks k m.delay
  · rw [hend]
    exact Timer.value_ticks k m.sound

/-- A program that sets a register and then runs into data while the delay timer runs. -/
theorem interleavings_agree_data :
    ∃ m : Machine, m.Reachable ∧ m.executes? .next = some (.loadByte 1 5) ∧
      m.run [.next, .tick, .next] = m.run [.tick, .next, .next] ∧
      m.stepResults [.tick, .next, .next] = [.ok .idle, .error (.invalidWord 0xFFFF)] ∧
      (m.run [.tick, .next, .next]).delay.value.toNat = 6 := by
  obtain ⟨m, hm, hrun, hcounter, hdelay, hbytes⟩ : ∃ m : Machine, m.Reachable ∧
      m.activity = .running ∧ m.counter = 0x200 ∧ m.delay.value = 7 ∧
      ∀ i < 4, m.memory.cell (0x200 + i) = [0x61, 0x05, 0xFF, 0xFF][i]?.getD 0 := by
    obtain ⟨start, hstart, hrun, hcounter, -, hbytes⟩ :=
      exists_started ⟨"data", [0x61, 0x05, 0xFF, 0xFF]⟩ (by decide)
    -- the host sets the delay timer by way of a register
    let loaded : Machine :=
      { start with registers := start.registers.put 3 7, counter := wrap start.counter }
    have hloaded : loaded.Reachable := by
      have h := hstart.act (a := .perform (.loadByte 3 7)) ⟨0x6307, by decide⟩
      rw [act, Work.perform_of_execute (Work.execute_loadByte (by decide) 7)
        hstart.valid.counter] at h
      exact h
    have hseven : loaded.registers.cell 3 = 7 := Bank.cell_put (by decide) 7 3
    let timed : Machine :=
      { loaded with delay := ⟨loaded.registers.cell 3⟩, counter := wrap loaded.counter }
    have htimed : timed.Reachable := by
      have h := hloaded.act (a := .perform (.setDelay 3)) ⟨0xF315, by decide⟩
      rw [act, Work.perform_of_execute (Work.execute_setDelay (x := 3) (by decide))
        hloaded.valid.counter] at h
      exact h
    refine ⟨timed, htimed, hrun, ?_, hseven, ?_⟩
    · show wrap (wrap start.counter) = 0x200
      rw [hcounter]
      rfl
    · intro i hi
      exact hbytes i (Nat.lt_trans hi (by decide))
  have hload : m.instruction = .ok (.loadByte 1 5) :=
    instruction_of_cells hcounter (by decide) (hbytes 0 (by decide)) (hbytes 1 (by decide))
  have hfirst : m.executes? .next = some (.loadByte 1 5) :=
    (executes?_next hm.valid).2 ⟨hrun, hload, rfl⟩
  -- the machine in front of the data, without and with a tick in between
  have hnext := next_of_execute hrun hload (Work.execute_loadByte (by decide) 5)
    hm.valid.fetched.counter
  have hdata : (m.run [.next, .tick]).instruction = .error (.invalidWord 0xFFFF) := by
    have hpast : (m.run [.next, .tick]).counter = 0x202 := by
      rw [run, act, hnext]
      show wrap (wrap (m.counter + wordSize)) = 0x202
      rw [hcounter]
      rfl
    have hmemory : (m.run [.next, .tick]).memory = m.memory := by
      rw [run, act, hnext]
      rfl
    have hhigh : (m.run [.next, .tick]).memory.cell 0x202 = 0xFF := by
      rw [hmemory]
      exact hbytes 2 (by decide)
    have hlow : (m.run [.next, .tick]).memory.cell 0x203 = 0xFF := by
      rw [hmemory]
      exact hbytes 3 (by decide)
    exact instruction_of_cells hpast (by decide) hhigh hlow
  have hstuck : (m.run [.next, .tick]).Stuck (.invalidWord 0xFFFF) := by
    refine ⟨?_, hdata⟩
    rw [run, act, hnext]
    exact hrun
  have htimer : ∀ i ∈ m.executed [.next, .tick, .next], i.usesTimer = false := by
    have hexecuted : m.executed [.next, .tick, .next] = [.loadByte 1 5] := by
      show (m.executes? .next).toList ++
        ([] ++ (((m.run [.next, .tick]).executes? .next).toList ++ [])) = _
      rw [hfirst, executes?_of_error hdata]
      rfl
    rw [hexecuted]
    exact List.forall_mem_singleton.2 rfl
  obtain ⟨hresults, hend, hdelay', -⟩ := interleavings_agree hm
    (.next (.tick (.next .nil))) (.tick (.next (.next .nil))) htimer
  refine ⟨m, hm, hfirst, hend, ?_, ?_⟩
  · rw [← hresults]
    show [m.next.result, (m.run [.next, .tick]).next.result] = _
    rw [hnext, hstuck.next_result]
  · rw [← hend, hdelay', hdelay]
    rfl

end Machine

end SpriteVM
