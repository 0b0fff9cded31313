import SpriteVM.Proofs.Footprint

/-!
# Waiting for a key

A machine begins to wait with the instruction for it and in no other way (`awaits_of_next`), and it
does not look at the keyboard then (`next_waitKey`). While it waits its steps read the keyboard and
nothing else: a step on a quiet keyboard changes nothing (`next_of_quiet`), and a step with a key
down takes the lowest one (`next_of_lowest`). No other action ends the wait (`act_waits`), so it
lasts until the first step that finds a key (`run_waits`), whatever happens in between.
-/

namespace SpriteVM

/-- No key is down. -/
def Keyboard.Quiet (k : Keyboard) : Prop :=
  ∀ key, k.isDown key = false

/-- A key is down, and none below it is. -/
structure Keyboard.Lowest (k : Keyboard) (key : Nat) : Prop where
  /-- it is a key -/
  lt : key < size
  /-- it is down -/
  down : k.isDown key
  /-- the keys below it are up -/
  up : ∀ c < key, k.isDown c = false

/-- When a key is down, one of them is the lowest. -/
theorem Keyboard.exists_lowest {k : Keyboard} (h : ¬ k.Quiet) : ∃ key, k.Lowest key := by
  cases hkey : k.lowest? with
  | none => exact absurd (lowest?_eq_none.1 hkey) h
  | some key =>
    obtain ⟨hlt, hdown, hup⟩ := lowest?_eq_some.1 hkey
    exact ⟨key, hlt, hdown, hup⟩

namespace Machine

variable {m : Machine} {r : Nat}

/-! ## How a wait begins -/

/-- The machine is about to wait for a key when the word at its program counter says so. -/
theorem instruction_eq_waitKey :
    m.instruction = .ok (.waitKey r) ↔
      m.counter + 1 < memorySize ∧ m.current.fits "Fx0A" ∧ m.current.x = r := by
  rw [instruction_eq_ok, Instruction.ofWord?_eq_waitKey]

/-- The step that begins to wait. -/
theorem next_waitKey (hm : m.Valid) (ha : m.activity = .running)
    (hi : m.instruction = .ok (.waitKey r)) :
    m.next =
      { machine :=
          { m with
            word := m.current
            counter := wrap (m.counter + 2)
            activity := .awaitingKey r }
        result := .ok .wait
        log := [.executing m.counter m.current (.waitKey r)] } := by
  rw [next_of_execute ha hi (Work.execute_waitKey r) hm.fetched.counter, Work.target, wrap,
    Nat.mod_eq_of_lt hm.fetched.counter]
  rfl

/-- Only the instruction for it begins a wait. -/
theorem awaits_of_next (hm : m.Valid) (ha : m.activity ≠ .awaitingKey r)
    (h : m.next.machine.activity = .awaitingKey r) :
    m.activity = .running ∧ m.instruction = .ok (.waitKey r) := by
  cases hm.outcome with
  | waits _ _ hnext =>
    rw [hnext] at h
    exact absurd h ha
  | takes _ _ hnext =>
    rw [hnext] at h
    cases h
  | stalls _ _ _ hnext =>
    rw [hnext] at h
    exact absurd h ha
  | fails _ _ _ hnext =>
    rw [hnext] at h
    exact absurd h ha
  | @executes i _ _ _ hrunning hi ho hx =>
    refine ⟨hrunning, hi.trans (congrArg _ ?_)⟩
    have hwait : i.activityAfter .running = .awaitingKey r := (next_activity hm hx).symm.trans h
    cases i with
    | waitKey x =>
      obtain rfl : x = r := Activity.awaitingKey.inj hwait
      rfl
    | _ => cases hwait

/-! ## Steps of a waiting machine -/

/-- A step that finds no key changes nothing. -/
theorem next_of_quiet (ha : m.activity = .awaitingKey r) (hq : m.keyboard.Quiet) :
    m.next = { machine := m, result := .ok .wait } := by
  rw [next_awaiting ha, Work.poll_of_none (Keyboard.lowest?_eq_none.2 hq)]

/-- Such a step might as well not have taken place. -/
theorem run_next_of_quiet (ha : m.activity = .awaitingKey r) (hq : m.keyboard.Quiet)
    (as : List Action) : m.run (.next :: as) = m.run as := by
  rw [run, act, next_of_quiet ha hq]
  rfl

/-- A step that finds keys puts the lowest one into the register and ends the wait. -/
theorem next_of_lowest {key : Nat} (hr : r < 16) (ha : m.activity = .awaitingKey r)
    (hk : m.keyboard.Lowest key) :
    m.next =
      { machine :=
          { m with
            registers := m.registers.put r (UInt8.ofNat key)
            activity := .running }
        result := .ok .idle
        log := [.keyStored key r] } := by
  have hlowest := Keyboard.lowest?_eq_some.2 ⟨hk.lt, hk.down, hk.up⟩
  rw [next_awaiting ha, Work.poll_of_some hr hlowest]

/-! ## How long a wait lasts -/

/-- **Step lemma.** Only a step that finds a key ends a wait. -/
theorem act_waits {a : Action} (ha : m.activity = .awaitingKey r) (hplay : a.Underway)
    (hq : a = .next → m.keyboard.Quiet) : (m.act a).machine.activity = .awaitingKey r := by
  cases a with
  | next =>
    rw [act, next_of_quiet ha (hq rfl)]
    exact ha
  | tick => exact ha
  | edit e => exact ha
  | load | follow | perform | execute => cases hplay

/-- **Run lemma.** A wait lasts for as long as every step finds a quiet keyboard. -/
theorem run_waits {as : List Action} (ha : m.activity = .awaitingKey r)
    (has : ∀ a ∈ as, a.Underway)
    (hq : ∀ bs cs, as = bs ++ .next :: cs → (m.run bs).keyboard.Quiet) :
    (m.run as).activity = .awaitingKey r := by
  induction as generalizing m with
  | nil => exact ha
  | cons a as ih =>
    refine ih (act_waits ha (has a (List.mem_cons_self ..)) ?_) ?_ ?_
    · intro hnext
      exact hq [] as (hnext ▸ rfl)
    · intro b hb
      exact has b (List.mem_cons_of_mem _ hb)
    · intro bs cs hbs
      exact hq (a :: bs) cs (congrArg (a :: ·) hbs)

/-- **Waits end with the first key that a step finds.** A step begins to wait for a key only when
the word at the program counter says so, and then the program counter is past that word and the
keyboard plays no part. From then on steps, ticks and changes of the keyboard may happen in any
order. As long as the keyboard is quiet at every step, each step succeeds, asks to wait and changes
nothing. The first step that finds a key succeeds, puts the lowest key into the register, ends the
wait and changes nothing else. None of these steps looks at memory or at the program counter. -/
theorem wait_until_key (hm : m.Reachable) :
    (∀ r, m.activity ≠ .awaitingKey r → m.next.machine.activity = .awaitingKey r →
      m.activity = .running ∧ m.counter + 1 < 4096 ∧ m.current.fits "Fx0A" ∧ m.current.x = r) ∧
    (m.activity = .running → m.counter + 1 < 4096 → m.current.fits "Fx0A" →
      m.next =
        { machine :=
            { m with
              word := m.current
              counter := (m.counter + 2) % 4096
              activity := .awaitingKey m.current.x }
          result := .ok .wait
          log := [.executing m.counter m.current (.waitKey m.current.x)] }) ∧
    ∀ r, m.activity = .awaitingKey r → ∀ as : List Action, (∀ a ∈ as, a.Underway) →
      (∀ bs cs, as = bs ++ .next :: cs → (m.run bs).keyboard.Quiet) →
      (∀ bs cs, as = bs ++ .next :: cs →
        (m.run bs).next = { machine := m.run bs, result := .ok .wait }) ∧
      ((m.run as).keyboard.Quiet → (m.run as).next = { machine := m.run as, result := .ok .wait }) ∧
      (¬ (m.run as).keyboard.Quiet → ∃ key, (m.run as).keyboard.Lowest key ∧
        (m.run as).next =
          { machine :=
              { m.run as with
                registers := (m.run as).registers.put r (UInt8.ofNat key)
                activity := .running }
            result := .ok .idle
            log := [.keyStored key r] }) := by
  refine ⟨?_, ?_, ?_⟩
  · intro r ha h
    obtain ⟨hrun, hi⟩ := awaits_of_next hm.valid ha h
    exact ⟨hrun, instruction_eq_waitKey.1 hi⟩
  · intro ha hlt hfits
    exact next_waitKey hm.valid ha (instruction_eq_waitKey.2 ⟨hlt, hfits, rfl⟩)
  · intro r ha as has hq
    have hr : r < 16 := hm.valid.awaited r ha
    have hwaits := run_waits ha has hq
    refine ⟨?_, next_of_quiet hwaits, ?_⟩
    -- a step in between comes at the end of a shorter run of the same kind
    · rintro bs cs rfl
      have hbefore : (m.run bs).activity = .awaitingKey r := by
        refine run_waits ha (fun a h => has a (List.mem_append_left _ h)) ?_
        rintro ds es rfl
        exact hq ds (es ++ .next :: cs) (by rw [List.append_assoc]; rfl)
      exact next_of_quiet hbefore (hq bs cs rfl)
    · intro hkeys
      obtain ⟨key, hkey⟩ := Keyboard.exists_lowest hkeys
      exact ⟨key, hkey, next_of_lowest hr hwaits hkey⟩

/-- A wait with the program counter at the last address, where no word could be fetched. A key that
is released again before the step goes unnoticed. -/
theorem wait_until_key_last_address :
    ∃ m : Machine, m.Reachable ∧ m.counter = 4095 ∧ m.activity = .awaitingKey 0xF ∧
      (m.run [.edit (.press 3), .edit (.release 3)]).next.result = .ok .wait ∧
      (m.run [.edit (.press 3), .edit (.release 3), .next, .edit (.press 9)]).next.result =
        .ok .idle ∧
      (m.run [.edit (.press 3), .edit (.release 3), .next, .edit (.press 9)]).next.machine.counter =
        4095 := by
  obtain ⟨m, hm, hcounter, ha, hkeyboard⟩ : ∃ m : Machine, m.Reachable ∧ m.counter = 4095 ∧
      m.activity = .awaitingKey 0xF ∧ m.keyboard = .released := by
    obtain ⟨start, hstart, -⟩ := exists_started ⟨"wait", []⟩ (by decide)
    refine ⟨start.run
      [.edit (.setAll (List.replicate 16 false)), .perform (.waitKey 0xF), .follow (.jump 4095)],
      hstart.run ?_, rfl, rfl, rfl⟩
    simp only [List.forall_mem_cons, Action.Allowed]
    exact ⟨rfl, ⟨0xFF0A, by decide⟩, trivial, fun _ h => absurd h List.not_mem_nil⟩
  have hquiet : (m.run [.edit (.press 3), .edit (.release 3)]).keyboard.Quiet := by
    show ((m.keyboard.apply (.press 3)).apply (.release 3)).Quiet
    rw [hkeyboard]
    exact Keyboard.lowest?_eq_none.1 (by decide)
  have hplay : ∀ a ∈ ([.edit (.press 3), .edit (.release 3), .next, .edit (.press 9)] :
      List Action), a.Underway := by simp [Action.Underway]
  have hq : ∀ bs cs, [.edit (.press 3), .edit (.release 3), .next, .edit (.press 9)] =
      bs ++ .next :: cs → (m.run bs).keyboard.Quiet := by
    -- the only step of the list stands behind the press and the release
    intro bs cs h
    rcases bs with _ | ⟨b₀, _ | ⟨b₁, _ | ⟨b₂, bs⟩⟩⟩
    · simp at h
    · simp at h
    · obtain ⟨rfl, rfl, -⟩ : _ = b₀ ∧ _ = b₁ ∧ _ := by simpa using h
      exact hquiet
    · have hrest : [.edit (.press 9)] = bs ++ .next :: cs := by
        simp only [List.cons_append, List.cons.injEq] at h
        exact h.2.2.2
      have hmem : Action.next ∈ [.edit (.press 9)] :=
        hrest ▸ List.mem_append_right _ (List.mem_cons_self ..)
      simp at hmem
  obtain ⟨hsteps, -, hfound⟩ := (wait_until_key hm).2.2 0xF ha _ hplay hq
  have hwait := hsteps [.edit (.press 3), .edit (.release 3)] [.edit (.press 9)] rfl
  have hrun : m.run [.edit (.press 3), .edit (.release 3), .next, .edit (.press 9)] =
      m.run [.edit (.press 3), .edit (.release 3), .edit (.press 9)] :=
    run_next_of_quiet (m := m.run [.edit (.press 3), .edit (.release 3)]) ha hquiet _
  have hdown : ¬ (m.run [.edit (.press 3), .edit (.release 3), .next,
      .edit (.press 9)]).keyboard.Quiet := by
    rw [hrun]
    intro h
    have hnine : (((m.keyboard.apply (.press 3)).apply (.release 3)).apply (.press 9)).isDown 9 =
      false := h 9
    rw [hkeyboard] at hnine
    exact absurd hnine (by decide)
  obtain ⟨key, -, hnext⟩ := hfound hdown
  refine ⟨m, hm, hcounter, ha, by rw [hwait], by rw [hnext], ?_⟩
  rw [hnext, hrun]
  exact hcounter

end Machine

end SpriteVM
