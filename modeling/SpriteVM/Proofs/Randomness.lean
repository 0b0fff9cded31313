import SpriteVM.Proofs.Aside

/-!
# Random bytes

The random source is read by the instruction for a random byte, one byte each, and by nothing else.

* An action takes as many bytes as it executes such instructions (`act_random`), hence so does a run
  (`run_random`), and each of them masks the byte that is up (`next_random`).
* So all that matters of a source is what it has to give. On a source that gives the same bytes as
  another one for as long as bytes are taken, an action is the same (`act_withRandom`), and a run is
  the same action by action (`reports_withRandom`).
-/

namespace SpriteVM

namespace ByteSource

/-- The byte that comes after `k` others. -/
def upcoming (s : ByteSource) (k : Nat) : UInt8 :=
  s.stream (s.taken + k)

/-- The source after `k` bytes. -/
def skip (s : ByteSource) (k : Nat) : ByteSource :=
  { s with taken := s.taken + k }

theorem skip_skip (s : ByteSource) (j k : Nat) : (s.skip j).skip k = s.skip (j + k) := by
  simp only [skip, Nat.add_assoc]

theorem upcoming_skip (s : ByteSource) (j k : Nat) : (s.skip j).upcoming k = s.upcoming (j + k) := by
  simp only [skip, upcoming, Nat.add_assoc]

end ByteSource

/-- The machine with another random source. -/
def Machine.withRandom (m : Machine) (s : ByteSource) : Machine :=
  { m with random := s }

/-- The report with another random source in its machine. -/
def Report.withRandom (r : Report) (s : ByteSource) : Report :=
  { r with machine := r.machine.withRandom s }

namespace Machine

variable {m : Machine} {a : Action} {as : List Action} {s : ByteSource}

/-- The number of random bytes that an action asks for. -/
def draws (m : Machine) (a : Action) : Nat :=
  (m.executes? a).toList.countP Instruction.isRandom

/-! ## Steps -/

/-- The step that takes a random byte. -/
theorem next_random {x : Nat} {kk : UInt8} (hm : m.Valid)
    (h : m.executes? .next = some (.random x kk)) :
    m.next =
      { machine :=
          { m.fetched with
            random := m.random.skip 1
            registers := m.registers.put x (m.random.upcoming 0 &&& kk) }
        result := .ok .idle
        log := [.executing m.counter m.current (.random x kk)] } := by
  obtain ⟨ha, hi, -⟩ := (executes?_next hm).1 h
  have hx : x < 16 := inRange_of_instruction hi
  rw [next_of_execute ha hi (Work.execute_random hx kk) hm.fetched.counter, Work.target, wrap,
    Nat.mod_eq_of_lt hm.fetched.counter]
  rfl

/-- What a step executes does not depend on the random source. -/
theorem executes?_withRandom (hm : m.Valid) : (m.withRandom s).executes? .next = m.executes? .next :=
  @executes?_aside m id id (fun _ => s) hm

/-- A step that takes no random byte is the same with every source. -/
theorem next_withRandom (hm : m.Valid)
    (h : ∀ i, m.executes? .next = some i → i.isRandom = false) (s : ByteSource) :
    (m.withRandom s).next = { m.next with machine := m.next.machine.withRandom s } := by
  have hrandom : ∀ i, m.executes? .next = some i → i.isRandom →
      (fun _ => s) = (id : ByteSource → ByteSource) := by
    intro i hi hrandom
    exact absurd hrandom (by simp [h i hi])
  exact @next_aside m id id (fun _ => s) hm (fun _ _ _ => ⟨rfl, rfl⟩) hrandom

/-- A step takes a random byte, or it asks for none. -/
theorem next_random_cases (m : Machine) :
    (∃ x kk, m.executes? .next = some (.random x kk) ∧ m.draws .next = 1) ∨
      (∀ i, m.executes? .next = some i → i.isRandom = false) ∧ m.draws .next = 0 := by
  rw [draws]
  cases m.executes? .next with
  | none => exact .inr ⟨nofun, rfl⟩
  | some i =>
    cases i with
    | random x kk => exact .inl ⟨x, kk, rfl, rfl⟩
    | _ =>
      refine .inr ⟨?_, rfl⟩
      rintro i ⟨⟩
      rfl

/-! ## One run -/

/-- **Step lemma.** An action takes the random bytes that it asks for. -/
theorem act_random (hm : m.Valid) (ha : a.HandsOff) :
    (m.act a).machine.random = m.random.skip (m.draws a) := by
  cases a with
  | next =>
    rw [act]
    obtain ⟨x, kk, hx, hone⟩ | ⟨hno, hzero⟩ := next_random_cases m
    · rw [next_random hm hx, hone]
      rfl
    -- with every source the step keeps the source, so with its own one too
    · rw [hzero]
      exact congrArg (fun turn => turn.machine.random) (next_withRandom hm hno m.random)
  | tick => rfl
  | edit e => rfl
  | load rom =>
    obtain h | h := act_load_cases m rom
    · rw [h]
      rfl
    · rw [h]
      rfl
  | follow | perform | execute => cases ha

/-- **Run lemma.** A run takes as many random bytes as it executes instructions for them. -/
theorem run_random (hm : m.Valid) (has : ∀ a ∈ as, a.HandsOff) :
    (m.run as).random = m.random.skip ((m.executed as).countP Instruction.isRandom) := by
  induction as generalizing m with
  | nil => rfl
  | cons a as ih =>
    have hact := has a (List.mem_cons_self ..)
    rw [run, ih (act_keeps_of_handsOff hm hact).valid fun b hb => has b (List.mem_cons_of_mem _ hb),
      act_random hm hact, ByteSource.skip_skip, executed, List.countP_append, draws]

/-! ## Two runs -/

/-- **Step lemma.** An action is the same on a source that gives the random bytes it asks for. -/
theorem act_withRandom (hm : m.Valid) (ha : a.HandsOff)
    (hs : ∀ k < m.draws a, s.upcoming k = m.random.upcoming k) :
    (m.withRandom s).executes? a = m.executes? a ∧
      (m.withRandom s).act a = (m.act a).withRandom (s.skip (m.draws a)) := by
  cases a with
  | next =>
    have hexecutes := executes?_withRandom (s := s) hm
    refine ⟨hexecutes, ?_⟩
    rw [act, act]
    obtain ⟨x, kk, hx, hone⟩ | ⟨hno, hzero⟩ := next_random_cases m
    · have hfirst : s.upcoming 0 = m.random.upcoming 0 := hs 0 (by rw [hone]; exact Nat.one_pos)
      have hvalid : (m.withRandom s).Valid := @Valid.aside m id id (fun _ => s) hm
      rw [next_random hvalid (hexecutes.trans hx), next_random hm hx, hone, ← hfirst]
      rfl
    · rw [next_withRandom hm hno, hzero]
      rfl
  | tick => exact ⟨rfl, rfl⟩
  | edit e => exact ⟨rfl, rfl⟩
  | load rom =>
    refine ⟨rfl, ?_⟩
    rw [act, act]
    by_cases hrom : rom.size ≤ programLimit
    · rw [load_of_le hrom, load_of_le hrom]
      rfl
    · rw [load_of_lt (Nat.not_le.1 hrom), load_of_lt (Nat.not_le.1 hrom)]
      rfl
  | follow | perform | execute => cases ha

/-- **Run lemma.** On a source that gives the same bytes for as long as bytes are taken, a run is the
same action by action. -/
theorem reports_withRandom (hm : m.Valid) (has : ∀ a ∈ as, a.HandsOff)
    (hs : ∀ k < (m.executed as).countP Instruction.isRandom,
      s.upcoming k = m.random.upcoming k) (t : ByteSource) :
    (m.withRandom s).executed as = m.executed as ∧
      ((m.withRandom s).reports as).map (·.withRandom t) =
        (m.reports as).map (·.withRandom t) := by
  induction as generalizing m s with
  | nil => exact ⟨rfl, rfl⟩
  | cons a as ih =>
    have hact := has a (List.mem_cons_self ..)
    rw [executed, List.countP_append, ← draws] at hs
    obtain ⟨hexecutes, hreport⟩ := act_withRandom hm hact fun k hk => hs k (by omega)
    have hlater : ∀ k < ((m.act a).machine.executed as).countP Instruction.isRandom,
        (s.skip (m.draws a)).upcoming k = (m.act a).machine.random.upcoming k := by
      intro k hk
      rw [act_random hm hact, ByteSource.upcoming_skip, ByteSource.upcoming_skip]
      exact hs _ (by omega)
    obtain ⟨hexecuted, hreports⟩ := ih (act_keeps_of_handsOff hm hact).valid
      (fun b hb => has b (List.mem_cons_of_mem _ hb)) hlater
    constructor
    · rw [executed, executed, hexecutes, hreport]
      exact congrArg _ hexecuted
    · rw [reports, reports, hreport]
      exact congrArg (_ :: ·) hreports

/-- **Every random byte is accounted for.** While steps, ticks, changes of the keyboard and new
sessions follow one another, the random source goes on by one byte for each executed instruction
that takes one, and by none otherwise; in particular a new session leaves it where it is. Such an
instruction puts the byte that is up, masked, into its register. Nothing else of the source matters:
when a run takes `n` bytes at most, it is the same action by action, up to the source itself, with
every source that gives the same first `n` bytes. -/
theorem random_bytes_accounted (hm : m.Reachable) :
    (∀ rom, (m.act (.load rom)).machine.random = m.random) ∧
    ∀ as : List Action, (∀ a ∈ as, a.HandsOff) →
      (m.run as).random.stream = m.random.stream ∧
      (m.run as).random.taken =
        m.random.taken + (m.executed as).countP Instruction.isRandom ∧
      (∀ bs cs x kk, as = bs ++ .next :: cs →
        (m.run bs).executes? .next = some (.random x kk) →
        (m.run bs).next.machine.registers.cell x =
          m.random.upcoming ((m.executed bs).countP Instruction.isRandom) &&& kk) ∧
      ∀ (s : ByteSource) (n : Nat), (m.executed as).countP Instruction.isRandom ≤ n →
        (∀ k < n, s.upcoming k = m.random.upcoming k) →
        (m.withRandom s).executed as = m.executed as ∧
        ∀ t, ((m.withRandom s).reports as).map (·.withRandom t) =
          (m.reports as).map (·.withRandom t) := by
  refine ⟨fun rom => act_random (a := .load rom) hm.valid trivial, ?_⟩
  intro as has
  have hrun := run_random hm.valid has
  refine ⟨by rw [hrun]; rfl, by rw [hrun]; rfl, ?_, ?_⟩
  · rintro bs cs x kk rfl hx
    have hbefore : ∀ a ∈ bs, a.HandsOff := fun a ha => has a (List.mem_append_left _ ha)
    have hvalid := (run_keeps_of_handsOff hm.valid hbefore).valid
    have hlt : x < 16 := inRange_of_instruction ((executes?_next hvalid).1 hx).2.1
    rw [next_random hvalid hx, run_random hm.valid hbefore, ByteSource.upcoming_skip]
    exact (Bank.cell_put hlt _ x).trans (if_pos rfl)
  · intro s n hn hs
    have hfirst : ∀ k < (m.executed as).countP Instruction.isRandom,
        s.upcoming k = m.random.upcoming k := fun k hk => hs k (Nat.lt_of_lt_of_le hk hn)
    exact ⟨(reports_withRandom hm.valid has hfirst s).1,
      fun t => (reports_withRandom hm.valid has hfirst t).2⟩

/-- A program that takes two random bytes and masks the first one away. -/
theorem random_bytes_accounted_masked :
    ∃ m : Machine, m.Reachable ∧ m.random = .cycle #[0xAB, 0xCD] ∧
      m.executed [.next, .tick, .next] = [.random 1 0, .random 2 0x0F] ∧
      (m.run [.next, .tick, .next]).random.taken = 2 ∧
      (m.run [.next, .tick, .next]).registers.cell 2 = 0x0D ∧
      ((m.withRandom (.cycle #[0xAB, 0xCD, 0x12])).reports [.next, .tick, .next]).map
          (·.withRandom m.random) =
        (m.reports [.next, .tick, .next]).map (·.withRandom m.random) := by
  obtain ⟨m, hm, hrunning, hcounter, -, -, -, hrandom, hbytes⟩ :=
    exists_booted ⟨"random", [0xC1, 0x00, 0xC2, 0x0F]⟩ (by decide) .standard .released
      (.cycle #[0xAB, 0xCD])
  have hfirst : m.executes? .next = some (.random 1 0) :=
    (executes?_next hm.valid).2 ⟨hrunning, instruction_of_cells hcounter (by decide)
      (hbytes 0 (by decide)) (hbytes 1 (by decide)), rfl⟩
  have hnext := next_random hm.valid hfirst
  have hsecond : (m.run [.next, .tick]).executes? .next = some (.random 2 0x0F) := by
    have hvalid : (m.run [.next, .tick]).Valid :=
      (run_keeps_of_handsOff hm.valid (by simp [Action.HandsOff])).valid
    have hpast : (m.run [.next, .tick]).counter = 0x202 := by
      rw [run, act, hnext]
      show wrap (m.counter + wordSize) = 0x202
      rw [hcounter]
      rfl
    have hmemory : (m.run [.next, .tick]).memory = m.memory := by
      rw [run, act, hnext]
      rfl
    refine (executes?_next hvalid).2 ⟨?_, instruction_of_data hbytes hmemory (k := 2) hpast
      (by decide), rfl⟩
    rw [run, act, hnext]
    exact hrunning
  have hexecuted : m.executed [.next, .tick, .next] = [.random 1 0, .random 2 0x0F] := by
    show (m.executes? .next).toList ++ ([] ++
      (((m.run [.next, .tick]).executes? .next).toList ++ [])) = _
    rw [hfirst, hsecond]
    rfl
  have hcount : (m.executed [.next, .tick]).countP Instruction.isRandom = 1 := by
    show ((m.executes? .next).toList ++ ([] ++ [])).countP Instruction.isRandom = 1
    rw [hfirst]
    rfl
  have hplay : ∀ a ∈ ([.next, .tick, .next] : List Action), a.HandsOff := by
    simp [Action.HandsOff]
  obtain ⟨-, htaken, hmasked, hsources⟩ := (random_bytes_accounted hm).2 _ hplay
  refine ⟨m, hm, hrandom, hexecuted, ?_, ?_, ?_⟩
  · rw [htaken, hexecuted, hrandom]
    rfl
  · have hcell := hmasked [.next, .tick] [] 2 0x0F rfl hsecond
    rw [hcount, hrandom] at hcell
    exact hcell
  · have hsame : ∀ k < 2,
        (ByteSource.cycle #[0xAB, 0xCD, 0x12]).upcoming k = m.random.upcoming k := by
      rw [hrandom]
      decide
    exact (hsources _ 2 (by rw [hexecuted]; decide) hsame).2 m.random

end Machine

end SpriteVM
