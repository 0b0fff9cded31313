import SpriteVM.Proofs.Failure

/-!
# Subroutines

What a run does to the stack. `executes?` names the instruction that an action executes with
success, and `Outcome` lists the ways that a step goes with and without one. Only calls and returns
among the executed instructions move the stack (`act_stack`). So the return address of a call stays
where it is until the return that takes it (`run_suffix`), and the depth of the stack is the number
of calls less the number of returns (`run_depth`). `call_run_return` states both for reachable
machines. The latest return address stands first in the stack, which is why an older part of a stack
is a suffix of it.
-/

namespace SpriteVM

/-- Whether an instruction calls a subroutine. -/
def Instruction.isCall : Instruction → Bool
  | .call _ => true
  | _ => false

namespace Machine

variable {m : Machine} {a : Action}

/-! ## Executed instructions -/

/-- The instruction that an action executes with success. -/
def executes? (m : Machine) : Action → Option Instruction
  | .next => if m.activity = .running ∧ m.next.result.isOk then m.instruction.toOption else none
  | .perform i => if (Work.perform i m).result.isOk then some i else none
  | .execute i => if (Work.execute i m).result.isOk then some i else none
  | _ => none

/-- The instructions that a list of actions executes with success, in order. -/
def executed (m : Machine) : List Action → List Instruction
  | [] => []
  | a :: as => (m.executes? a).toList ++ (m.act a).machine.executed as

/-- The address that a call returns to when an action executes it. -/
def returnAddress (m : Machine) : Action → Nat
  | .next => wrap (m.counter + wordSize)
  | _ => m.counter

/-- A step executes the instruction at the program counter if that meets no obstacle. -/
theorem executes?_next {i : Instruction} (hm : m.Valid) :
    m.executes? .next = some i ↔
      m.activity = .running ∧ m.instruction = .ok i ∧ m.fetched.obstacle? i = none := by
  have hok : m.next.result.isOk ↔ m.failure? = none := by
    cases h : m.next.result with
    | ok hint =>
      have hnone := (next_result_eq_ok hm).1 ⟨hint, h⟩
      exact iff_of_true rfl (Option.eq_none_iff_forall_ne_some.2 hnone)
    | error e =>
      rw [(next_result_eq_error hm).1 h]
      exact iff_of_false Bool.false_ne_true (Option.some_ne_none e)
  simp only [executes?, Option.ite_none_right_eq_some, hok]
  constructor
  · rintro ⟨⟨ha, hf⟩, hi⟩
    cases h : m.instruction with
    | error e =>
      rw [h] at hi
      cases hi
    | ok j =>
      rw [h] at hi
      obtain rfl := Option.some.inj hi
      rw [failure?_of_ok ha h] at hf
      exact ⟨ha, rfl, hf⟩
  · rintro ⟨ha, h, ho⟩
    rw [failure?_of_ok ha h, h]
    exact ⟨⟨ha, ho⟩, rfl⟩

/-- A step without an instruction executes nothing. -/
theorem executes?_of_error {e : StepError} (h : m.instruction = .error e) :
    m.executes? .next = none := by
  rw [executes?, h]
  exact ite_self none

/-! ## The ways that a step goes -/

/-- The ways that a step goes, each with what comes of it. -/
inductive Outcome (m : Machine) : Prop where
  /-- a key is awaited and none is down -/
  | waits {r : Nat} (ha : m.activity = .awaitingKey r) (hx : m.executes? .next = none)
      (hnext : m.next = { machine := m, result := .ok .wait })
  /-- a key is awaited and one is down -/
  | takes {r key : Nat} (ha : m.activity = .awaitingKey r) (hx : m.executes? .next = none)
      (hnext : m.next =
        { machine :=
            { m with
              registers := m.registers.put r (UInt8.ofNat key)
              activity := .running }
          result := .ok .idle
          log := [.keyStored key r] })
  /-- there is no instruction at the program counter -/
  | stalls {e : StepError} {word : Word} (ha : m.activity = .running)
      (hi : m.instruction = .error e) (hx : m.executes? .next = none)
      (hnext : m.next = { machine := { m with word }, result := .error e })
  /-- the instruction meets an obstacle -/
  | fails {i : Instruction} {e : StepError} (ha : m.activity = .running)
      (hi : m.instruction = .ok i) (hx : m.executes? .next = none)
      (hnext : m.next =
        { machine := m.fetched, result := .error e, log := [.executing m.counter m.current i] })
  /-- the instruction is executed -/
  | executes {i : Instruction} {m' : Machine} {effect : Effect} {log : List Message}
      (ha : m.activity = .running) (hi : m.instruction = .ok i)
      (ho : m.fetched.obstacle? i = none) (hx : m.executes? .next = some i)
      (hwork : Work.execute i m.fetched = { machine := m', result := .ok effect, log })
      (hnext : m.next =
        { machine := { m' with counter := Work.target m.fetched.counter effect.flow }
          result := .ok effect.hint
          log := .executing m.counter m.current i :: log })

/-- Every step goes one of these ways. -/
theorem Valid.outcome (hm : m.Valid) : m.Outcome := by
  cases ha : m.activity with
  | awaitingKey r =>
    have hx : m.executes? .next = none := by rw [executes?, ha, if_neg (by simp)]
    cases hkey : m.keyboard.lowest? with
    | none => exact .waits ha hx (by rw [next_awaiting ha, Work.poll_of_none hkey])
    | some key =>
      exact .takes ha hx (by rw [next_awaiting ha, Work.poll_of_some (hm.awaited r ha) hkey])
  | running =>
    cases hi : m.instruction with
    | error e =>
      obtain ⟨word, hnext⟩ := next_of_error ha hi
      exact .stalls ha hi (executes?_of_error hi) hnext
    | ok i =>
      cases ho : m.fetched.obstacle? i with
      | some e =>
        have hnext := next_of_obstacle hm ha hi ho
        have hx : m.executes? .next = none := by
          rw [executes?, hnext]
          exact if_neg fun h => Bool.false_ne_true h.2
        exact .fails ha hi hx hnext
      | none =>
        obtain ⟨m', effect, log, hwork, -, hnext⟩ := next_of_no_obstacle hm ha hi ho
        exact .executes ha hi ho ((executes?_next hm).2 ⟨ha, hi, ho⟩) hwork hnext

/-! ## The stack along one action -/

/-- A step that executes nothing looks for a key or fails. It leaves most of the state as it is. -/
theorem next_of_none (hm : m.Valid) (h : m.executes? .next = none) :
    m.next.machine =
      { m with
        word := m.next.machine.word
        registers := m.next.machine.registers
        counter := m.next.machine.counter
        activity := m.next.machine.activity } := by
  cases hm.outcome with
  | waits ha hx hnext | takes ha hx hnext | stalls ha hi hx hnext => rw [hnext]
  | fails ha hi hx hnext =>
    rw [hnext]
    rfl
  | executes ha hi ho hx hwork hnext => cases hx.symm.trans h

theorem next_stack_of_none (hm : m.Valid) (h : m.executes? .next = none) :
    m.next.machine.stack = m.stack := by
  rw [next_of_none hm h]

/-- **Step lemma.** Only the instruction that an action executes with success moves the stack. A ROM
that is loaded empties the stack and is left out here. -/
theorem act_stack (hm : m.Valid) (ha : a.Allowed)
    (hload : ∀ rom, a = .load rom → programLimit < rom.size) :
    m.executes? a = none ∧ (m.act a).machine.stack = m.stack ∨
    ∃ i, m.executes? a = some i ∧ (i = .ret → m.stack ≠ []) ∧
      (m.act a).machine.stack = i.stackAfter (m.returnAddress a) m.stack := by
  cases a with
  | tick => exact .inl ⟨rfl, rfl⟩
  | edit e => exact .inl ⟨rfl, rfl⟩
  | load rom =>
    refine .inl ⟨rfl, ?_⟩
    rw [act, load_of_lt (hload rom rfl)]
    rfl
  | follow flow =>
    refine .inl ⟨rfl, ?_⟩
    rw [act, Work.follow_apply hm.counter]
    rfl
  | execute i =>
    obtain ⟨w, hw⟩ := ha
    have hi := Instruction.inRange_of_ofWord? hw
    cases h : m.obstacle? i with
    | some e =>
      rw [act, executes?, Work.execute_of_obstacle hm hi h]
      exact .inl ⟨rfl, rfl⟩
    | none =>
      obtain ⟨m', effect, log, hx, hs⟩ := Work.execute_of_no_obstacle hm hi h
      rw [act, executes?, hx]
      exact .inr ⟨i, rfl, fun hret => stack_ne_nil (hret ▸ h), hs.stack⟩
  | perform i =>
    obtain ⟨w, hw⟩ := ha
    have hi := Instruction.inRange_of_ofWord? hw
    cases h : m.obstacle? i with
    | some e =>
      rw [act, executes?, Work.perform_of_obstacle hm hi h]
      exact .inl ⟨rfl, rfl⟩
    | none =>
      obtain ⟨m', effect, log, -, hs, hp⟩ := Work.perform_of_no_obstacle hm hi h
      rw [act, executes?, hp]
      exact .inr ⟨i, rfl, fun hret => stack_ne_nil (hret ▸ h), hs.stack⟩
  | next =>
    cases hx : m.executes? .next with
    | some i =>
      obtain ⟨ha, hi, ho⟩ := (executes?_next hm).1 hx
      obtain ⟨m', effect, log, -, hs, hnext⟩ := next_of_no_obstacle hm ha hi ho
      rw [act, hnext]
      exact .inr ⟨i, rfl, fun hret => stack_ne_nil (m := m.fetched) (hret ▸ ho), hs.stack⟩
    | none => exact .inl ⟨rfl, next_stack_of_none hm hx⟩

/-- The depth of the stack grows with a call and falls with a return. -/
theorem act_depth (hm : m.Valid) (ha : a.Allowed)
    (hload : ∀ rom, a = .load rom → programLimit < rom.size) :
    (m.act a).machine.stack.length + (m.executes? a).toList.count .ret =
      m.stack.length + (m.executes? a).toList.countP Instruction.isCall := by
  obtain ⟨hx, hs⟩ | ⟨i, hx, hne, hs⟩ := act_stack hm ha hload
  · rw [hx, hs]
    rfl
  · rw [hx, hs, Option.toList_some]
    cases i with
    | call nnn => rfl
    | ret =>
      have hpos : 0 < m.stack.length := List.length_pos_iff.2 (hne rfl)
      simp only [Instruction.stackAfter, List.length_tail, List.count_singleton_self,
        List.countP_singleton, Instruction.isCall, Bool.false_eq_true, if_false]
      omega
    | _ => rfl

/-- **Run lemma.** The depth of the stack is what it was plus the calls less the returns. -/
theorem run_depth {as : List Action} (hm : m.Valid) (has : ∀ a ∈ as, a.Allowed)
    (hload : ∀ rom, .load rom ∈ as → programLimit < rom.size) :
    (m.run as).stack.length + (m.executed as).count .ret =
      m.stack.length + (m.executed as).countP Instruction.isCall := by
  induction as generalizing m with
  | nil => rfl
  | cons a as ih =>
    have hact := has a (List.mem_cons_self ..)
    have hone := act_depth hm hact fun rom h => hload rom (h ▸ List.mem_cons_self ..)
    have hrest := ih (act_keeps hm hact).valid (fun b hb => has b (List.mem_cons_of_mem _ hb))
      fun rom h => hload rom (List.mem_cons_of_mem _ h)
    rw [run, executed, List.count_append, List.countP_append]
    omega

/-! ## The life of a return address -/

/-- The next step meets a return with `depth` return addresses on the stack. -/
structure AtReturn (m : Machine) (depth : Nat) : Prop where
  /-- it does not wait for a key -/
  running : m.activity = .running
  /-- the instruction at the program counter -/
  ret : m.instruction = .ok .ret
  /-- how many return addresses there are -/
  depth : m.stack.length = depth

/-- Of the actions of a session under way only steps execute instructions. -/
theorem next_of_executes? {i : Instruction} (ha : a.InPlay) (h : m.executes? a = some i) :
    a = .next := by
  cases a with
  | next => rfl
  | tick | edit => cases h
  | load | follow | perform | execute => cases ha

/-- **Step lemma.** An old part of the stack stays for as long as no return is met right on it. -/
theorem act_suffix {s : List Nat} (hm : m.Valid) (ha : a.InPlay) (hs : s <:+ m.stack)
    (hret : a = .next → ¬ m.AtReturn s.length) : s <:+ (m.act a).machine.stack := by
  have hload : ∀ rom, a = .load rom → programLimit < rom.size := by
    rintro rom rfl
    cases ha
  obtain ⟨-, hstack⟩ | ⟨i, hx, hne, hstack⟩ := act_stack hm ha.allowed hload
  · rw [hstack]
    exact hs
  · rw [hstack]
    cases i with
    | call nnn => exact hs.trans (List.suffix_cons ..)
    | ret =>
      obtain rfl := next_of_executes? ha hx
      obtain ⟨hrun, hi, -⟩ := (executes?_next hm).1 hx
      obtain ⟨address, stack, hcons⟩ := List.exists_cons_of_ne_nil (hne rfl)
      rw [hcons] at hs
      rw [Instruction.stackAfter, hcons, List.tail_cons]
      rcases List.suffix_cons_iff.1 hs with rfl | hs
      -- right on `s` a return is ruled out, so the entry that it takes lies above
      · exact absurd ⟨hrun, hi, congrArg List.length hcons⟩ (hret rfl)
      · exact hs
    | _ => exact hs

/-- **Run lemma.** An old part of the stack stays until the return that takes its latest entry. -/
theorem run_suffix {as : List Action} {s : List Nat} (hm : m.Valid) (has : ∀ a ∈ as, a.InPlay)
    (hs : s <:+ m.stack)
    (hret : ∀ bs cs, as = bs ++ .next :: cs → ¬ (m.run bs).AtReturn s.length) :
    s <:+ (m.run as).stack := by
  induction as generalizing m with
  | nil => exact hs
  | cons a as ih =>
    have hact := has a (List.mem_cons_self ..)
    refine ih (act_keeps hm hact.allowed).valid ?_ ?_ ?_
    · intro b hb
      exact has b (List.mem_cons_of_mem _ hb)
    · exact act_suffix hm hact hs fun h => hret [] as (h ▸ rfl)
    · intro bs cs hbs
      exact hret (a :: bs) cs (congrArg (a :: ·) hbs)

/-! ## Calls and returns -/

/-- The step that executes a call. -/
theorem next_call {nnn : Nat} (hm : m.Valid) (h : m.executes? .next = some (.call nnn)) :
    m.next =
      { machine := { m.fetched with stack := wrap (m.counter + 2) :: m.stack, counter := nnn }
        result := .ok .idle
        log := [.executing m.counter m.current (.call nnn)] } := by
  obtain ⟨ha, hi, ho⟩ := (executes?_next hm).1 h
  have hroom : m.fetched.stack.length ≠ stackLimit := length_stack_ne ho
  have hnnn : nnn < memorySize := inRange_of_instruction hi
  rw [next_of_execute ha hi (Work.execute_call hroom) hm.fetched.counter, Work.target, wrap,
    Nat.mod_eq_of_lt hnnn]
  rfl

/-- The step that executes a return. -/
theorem next_ret {address : Nat} {stack : List Nat} (hm : m.Valid) (ha : m.activity = .running)
    (hi : m.instruction = .ok .ret) (hs : m.stack = address :: stack) :
    m.next =
      { machine := { m.fetched with stack, counter := address }
        result := .ok .idle
        log := [.executing m.counter m.current .ret, .returned address] } := by
  have haddress : address < memorySize := hm.stack address (hs ▸ List.mem_cons_self ..)
  rw [next_of_execute ha hi (Work.execute_ret_cons hs) hm.fetched.counter, Work.target, wrap,
    Nat.mod_eq_of_lt haddress]

/-- A return that finds a return address takes it. -/
theorem executes?_ret (hm : m.Valid) (ha : m.activity = .running) (hi : m.instruction = .ok .ret)
    (hs : m.stack ≠ []) : m.executes? .next = some .ret :=
  (executes?_next hm).2 ⟨ha, hi, if_neg hs⟩

/-- While the stack does not get lower than `depth`, no return is met at that depth. -/
theorem not_atReturn_of_depth {as : List Action} {depth : Nat} (hm : m.Valid)
    (has : ∀ a ∈ as, a.InPlay) (hpos : 0 < depth)
    (hdepth : ∀ bs, bs <+: as → depth ≤ (m.run bs).stack.length) (bs cs : List Action)
    (hbs : as = bs ++ .next :: cs) : ¬ (m.run bs).AtReturn depth := by
  rintro ⟨hrun, hret, hlength⟩
  have hin : ∀ b ∈ bs, b.Allowed := fun b hb => (has b (hbs ▸ List.mem_append_left _ hb)).allowed
  obtain ⟨address, stack, hcons⟩ := List.exists_cons_of_length_pos (hlength ▸ hpos)
  -- the step that meets the return would leave the stack one lower
  have hnext := next_ret (run_keeps hm hin).valid hrun hret hcons
  have hafter := hdepth (bs ++ [.next]) ⟨cs, by rw [hbs, List.append_assoc, List.singleton_append]⟩
  rw [run_append, run, run, act, hnext] at hafter
  rw [hcons, List.length_cons] at hlength
  have hlow : depth ≤ stack.length := hafter
  omega

/-- A machine at the start of a session: just booted, or just loaded with a ROM that fits. -/
inductive Fresh : Machine → Prop where
  /-- the machine is new -/
  | boot {rom : Rom} {display : Display} {keyboard : Keyboard} {random : ByteSource} {m : Machine}
      (h : boot rom display keyboard random = .ok m) : Fresh m
  /-- the session is new -/
  | load {m : Machine} {rom : Rom} (hm : m.Reachable) (h : rom.size ≤ programLimit) :
      Fresh (m.act (.load rom)).machine

theorem Fresh.valid (h : m.Fresh) : m.Valid := by
  cases h with
  | boot h => exact (Reachable.boot h).valid
  | load hm h => exact (act_keeps (a := .load _) hm.valid trivial).valid

theorem Fresh.stack (h : m.Fresh) : m.stack = [] := by
  cases h with
  | boot h =>
    obtain ⟨-, rfl⟩ := boot_eq_ok.1 h
    rfl
  | load hm h =>
    rw [act, load_of_le h]
    rfl

/-- **Subroutines are disciplined.** A call that succeeds puts the address behind it on the stack
and goes to its target. While steps, ticks and keys happen and the stack does not get lower than
after the call, what was on it then stays there, and the first return that is met at that depth
succeeds, goes to the address behind the call and restores the stack. Along every run of a session
the depth of the stack is the number of calls less the number of returns, and at most sixteen. -/
theorem call_run_return :
    (∀ m : Machine, m.Reachable → ∀ nnn, m.executes? .next = some (.call nnn) →
      m.next.machine.stack = (m.counter + 2) % 0x1000 :: m.stack ∧ m.next.machine.counter = nnn ∧
      ∀ as : List Action, (∀ a ∈ as, a.InPlay) →
        ((∀ bs, bs <+: as → m.stack.length + 1 ≤ (m.next.machine.run bs).stack.length) →
          ((m.counter + 2) % 0x1000 :: m.stack) <:+ (m.next.machine.run as).stack) ∧
        ((∀ bs cs, as = bs ++ .next :: cs →
            ¬ (m.next.machine.run bs).AtReturn (m.stack.length + 1)) →
          (m.next.machine.run as).AtReturn (m.stack.length + 1) →
          (m.next.machine.run as).executes? .next = some .ret ∧
          (m.next.machine.run as).next.machine.counter = (m.counter + 2) % 0x1000 ∧
          (m.next.machine.run as).next.machine.stack = m.stack)) ∧
    ∀ m : Machine, m.Fresh → ∀ as : List Action, (∀ a ∈ as, a.Allowed) →
      (∀ rom, .load rom ∈ as → programLimit < rom.size) →
      (m.run as).stack.length + (m.executed as).count .ret =
        (m.executed as).countP Instruction.isCall ∧
      (m.run as).stack.length ≤ 16 := by
  constructor
  · intro m hm nnn hcall
    have hnext := next_call hm.valid hcall
    have hstack : m.next.machine.stack = wrap (m.counter + 2) :: m.stack := by rw [hnext]
    have hstart : (wrap (m.counter + 2) :: m.stack) <:+ m.next.machine.stack :=
      hstack ▸ List.suffix_refl _
    have hvalid : m.next.machine.Valid := (next_keeps hm.valid).valid
    refine ⟨hstack, by rw [hnext], ?_⟩
    intro as has
    constructor
    · intro hdepth
      refine run_suffix hvalid has hstart ?_
      exact not_atReturn_of_depth hvalid has (Nat.succ_pos _) hdepth
    · intro hno hret
      -- at this depth the old part of the stack is all of it
      have hold := ((run_suffix hvalid has hstart hno).eq_of_length hret.depth.symm).symm
      have hrun := (run_keeps hvalid fun a h => (has a h).allowed).valid
      have hback := next_ret hrun hret.running hret.ret hold
      refine ⟨executes?_ret hrun hret.running hret.ret ?_, ?_, ?_⟩
      · rw [hold]
        exact List.cons_ne_nil _ _
      · rw [hback]
        rfl
      · rw [hback]
  · intro m hm as has hload
    have hdepth := run_depth hm.valid has hload
    rw [hm.stack, List.length_nil, Nat.zero_add] at hdepth
    exact ⟨hdepth, (run_keeps hm.valid has).valid.depth⟩

/-- A subroutine that returns at once, with a tick in between. -/
theorem call_run_return_at_once :
    ∃ m : Machine, m.Reachable ∧ m.executes? .next = some (.call 0x204) ∧
      m.next.machine.stack = [0x202] ∧
      (m.next.machine.run [.tick, .next]).counter = 0x202 ∧
      (m.next.machine.run [.tick, .next]).stack = [] := by
  obtain ⟨start, hstart, hrun, hcounter, hstack, hbytes⟩ :=
    exists_started ⟨"call", [0x22, 0x04, 0x00, 0x00, 0x00, 0xEE]⟩ (by decide)
  have hinstruction : start.instruction = .ok (.call 0x204) :=
    instruction_of_cells hcounter (by decide) (hbytes 0 (by decide)) (hbytes 1 (by decide))
  have hroom : start.fetched.obstacle? (.call 0x204) = none := by
    have hdepth : start.fetched.stack.length = 0 := congrArg List.length hstack
    rw [obstacle?, hdepth]
    rfl
  have hcall : start.executes? .next = some (.call 0x204) :=
    (executes?_next hstart.valid).2 ⟨hrun, hinstruction, hroom⟩
  obtain ⟨hpushed, hwent, hlater⟩ := call_run_return.1 start hstart _ hcall
  have hat : (start.next.machine.run [.tick]).AtReturn (start.stack.length + 1) := by
    have hcounter' : (start.next.machine.run [.tick]).counter = 0x204 := by
      rw [next_call hstart.valid hcall]
      rfl
    have hmemory : (start.next.machine.run [.tick]).memory = start.memory := by
      rw [next_call hstart.valid hcall]
      rfl
    refine ⟨?_, ?_, ?_⟩
    · rw [next_call hstart.valid hcall]
      exact hrun
    · exact instruction_of_cells hcounter' (by decide) (hmemory ▸ hbytes 4 (by decide))
        (hmemory ▸ hbytes 5 (by decide))
    · exact congrArg List.length hpushed
  have hplay : ∀ a ∈ ([.tick] : List Action), a.InPlay := by simp [Action.InPlay]
  have hfirst : ∀ bs cs, [.tick] = bs ++ Action.next :: cs →
      ¬ (start.next.machine.run bs).AtReturn (start.stack.length + 1) := by
    intro bs cs hbs
    have hmem : Action.next ∈ [.tick] := hbs ▸ List.mem_append_right _ (List.mem_cons_self ..)
    simp at hmem
  obtain ⟨-, hback, hpopped⟩ := (hlater [.tick] hplay).2 hfirst hat
  rw [hstack] at hpushed hpopped
  rw [hcounter] at hpushed hback
  exact ⟨start, hstart, hcall, hpushed, hback, hpopped⟩

end Machine

end SpriteVM
