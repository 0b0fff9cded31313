import SpriteVM.Proofs.Footprint

/-!
# What hints tell

The hint of a step is all that a host needs to know about the display and about a wait for a key.

* An instruction always gives the same hint (`execute_hint`). So a step asks to wait exactly when
  the machine awaits a key after it (`next_wait_iff`), and a step that changes the display asks to
  show it again (`next_display`).
* No other action of a host writes to the display (`act_display`). Hence the picture of a host that
  looks at the display only when a step asks for it, `Machine.shown`, is never out of date
  (`shown_run`).
-/

namespace SpriteVM

/-- What an instruction asks of the host. -/
def Instruction.hint : Instruction → Hint
  | .clear | .draw .. => .redraw
  | .waitKey _ => .wait
  | _ => .idle

namespace Work

variable {ε α β : Type} {p : α → Prop}

/-- Whatever the work gives has the property. -/
def Gives (p : α → Prop) (w : Work ε α) : Prop :=
  ∀ m a, (w m).result = .ok a → p a

theorem Gives.pure {a : α} (h : p a) : (Pure.pure a : Work ε α).Gives p := by
  rintro m b ⟨⟩
  exact h

/-- What a sequence gives is what its last piece gives. -/
theorem Gives.bind {w : Work ε β} {f : β → Work ε α} (hf : ∀ b, (f b).Gives p) :
    (w >>= f).Gives p := by
  intro m a h
  cases hw : (w m).result with
  | error e =>
    rw [bind_of_error hw] at h
    cases h
  | ok b =>
    rw [bind_of_ok hw] at h
    exact hf b _ a h

/-- An instruction that succeeds gives its hint. -/
theorem execute_hint (i : Instruction) : (execute i).Gives fun effect => effect.hint = i.hint := by
  cases i with
  | jump nnn => exact Gives.pure rfl
  | call nnn | jumpOffset nnn | addByte x kk | readDelay x | setDelay x | setSound x =>
    exact Gives.bind fun _ => Gives.bind fun _ => Gives.pure rfl
  | _ => exact Gives.bind fun _ => Gives.pure rfl

end Work

namespace Machine

variable {m : Machine} {i : Instruction}

/-! ## Steps -/

/-- An executed instruction that does not ask to show the display again leaves it as it is. -/
theorem execute_display (hm : m.Valid) (hi : i.InRange) (ho : m.obstacle? i = none)
    (h : i.hint ≠ .redraw) : (Work.execute i m).machine.display = m.display := by
  rw [execute_eq_adopt hm hi ho]
  cases i with
  | clear | draw x y n => exact absurd rfl h
  | _ => rfl

/-- A step that executes an instruction gives the hint of that instruction. -/
theorem next_hint (hm : m.Valid) (h : m.executes? .next = some i) :
    m.next.result = .ok i.hint := by
  obtain ⟨ha, hi, ho⟩ := (executes?_next hm).1 h
  obtain ⟨m', effect, log, hwork, -, hnext⟩ := next_of_no_obstacle hm ha hi ho
  rw [hnext, Work.execute_hint _ _ _ (congrArg Turn.result hwork)]

/-- An instruction asks to wait when a running machine awaits a key after it. -/
theorem hint_eq_wait (i : Instruction) :
    i.hint = .wait ↔ ∃ r, i.activityAfter .running = .awaitingKey r := by
  cases i with
  | waitKey x => exact iff_of_true rfl ⟨x, rfl⟩
  | _ => exact iff_of_false nofun nofun

/-- A step asks to wait exactly when the machine awaits a key after it. -/
theorem next_wait_iff (hm : m.Valid) :
    m.next.result = .ok .wait ↔ ∃ r, m.next.machine.activity = .awaitingKey r := by
  cases hm.outcome with
  | @waits r ha hx hnext =>
    rw [hnext]
    exact iff_of_true rfl ⟨r, ha⟩
  | takes ha hx hnext =>
    rw [hnext]
    exact iff_of_false nofun nofun
  | stalls ha hi hx hnext | fails ha hi hx hnext =>
    have hrunning : m.next.machine.activity = .running := by
      rw [hnext]
      exact ha
    rw [hrunning, hnext]
    exact iff_of_false nofun nofun
  | executes ha hi ho hx hwork hnext =>
    rw [next_hint hm hx, next_activity hm hx, ← hint_eq_wait, Except.ok.injEq]

/-- A step that does not ask to show the display again leaves it as it is. -/
theorem next_display (hm : m.Valid) (h : m.next.result ≠ .ok .redraw) :
    m.next.machine.display = m.display := by
  cases hm.outcome with
  | waits ha hx hnext | takes ha hx hnext | stalls ha hi hx hnext => rw [hnext]
  | fails ha hi hx hnext =>
    rw [hnext]
    rfl
  | executes ha hi ho hx hwork hnext =>
    rw [next_machine_of_executes? hm hx]
    refine execute_display hm.fetched (inRange_of_instruction hi) ho ?_
    intro hredraw
    exact h ((next_hint hm hx).trans (congrArg Except.ok hredraw))

/-! ## Runs -/

/-- The picture of a host that shows the display again when a step asks for it, and only then. -/
def shown (m : Machine) (picture : Display) : List Action → Display
  | [] => picture
  | a :: as =>
    let report := m.act a
    let picture :=
      if report.answer = .stepped .redraw then report.machine.display else picture
    report.machine.shown picture as

/-- Some step among the actions asks to show the display again. -/
def AsksRedraw (m : Machine) (as : List Action) : Prop :=
  ∃ bs cs, as = bs ++ .next :: cs ∧ (m.run bs).next.result = .ok .redraw

/-- Of the actions of a host only a step can ask to show the display again. -/
theorem answer_eq_redraw {a : Action} (ha : a.HandsOff) :
    (m.act a).answer = .stepped .redraw ↔ a = .next ∧ m.next.result = .ok .redraw := by
  cases a with
  | next =>
    rw [act, Turn.report]
    cases m.next.result <;> simp
  | tick => simp [act, actTick]
  | edit e =>
    rw [act, actEdit]
    cases e.accepted <;> simp
  | load rom =>
    rw [act, Turn.report]
    cases (Work.load rom m).result with
    | ok _ => simp
    | error e => cases e <;> simp [LoadError.answer]
  | follow | perform | execute => cases ha

/-- **Step lemma.** An action that does not ask to show the display again leaves it as it is. -/
theorem act_display {a : Action} (hm : m.Valid) (ha : a.HandsOff)
    (h : a = .next → m.next.result ≠ .ok .redraw) : (m.act a).machine.display = m.display := by
  cases a with
  | next => exact next_display hm (h rfl)
  | tick => rfl
  | edit e => rfl
  | load rom =>
    obtain h | h := act_load_cases m rom
    · rw [h]
    · rw [h]
      rfl
  | follow | perform | execute => cases ha

/-- **Run lemma.** Without a step that asks to show the display again, it stays as it is. -/
theorem run_display {as : List Action} (hm : m.Valid) (has : ∀ a ∈ as, a.HandsOff)
    (h : ¬ m.AsksRedraw as) : (m.run as).display = m.display := by
  induction as generalizing m with
  | nil => rfl
  | cons a as ih =>
    have hact := has a (List.mem_cons_self ..)
    have hfirst : (m.act a).machine.display = m.display := by
      refine act_display hm hact ?_
      rintro rfl hredraw
      exact h ⟨[], as, rfl, hredraw⟩
    have hrest : ¬ (m.act a).machine.AsksRedraw as := by
      rintro ⟨bs, cs, rfl, hredraw⟩
      exact h ⟨a :: bs, cs, rfl, hredraw⟩
    rw [run, ih (act_keeps_of_handsOff hm hact).valid
      (fun b hb => has b (List.mem_cons_of_mem _ hb)) hrest, hfirst]

/-- **Run lemma.** A picture that is up to date stays so when it is renewed whenever a step asks. -/
theorem shown_run {as : List Action} (hm : m.Valid) (has : ∀ a ∈ as, a.HandsOff) :
    m.shown m.display as = (m.run as).display := by
  induction as generalizing m with
  | nil => rfl
  | cons a as ih =>
    have hact := has a (List.mem_cons_self ..)
    have hpicture : (if (m.act a).answer = .stepped .redraw then (m.act a).machine.display
        else m.display) = (m.act a).machine.display := by
      split
      · rfl
      · next h =>
        refine (act_display hm hact ?_).symm
        intro hnext hredraw
        exact h ((answer_eq_redraw hact).2 ⟨hnext, hredraw⟩)
    rw [shown, run, hpicture]
    exact ih (act_keeps_of_handsOff hm hact).valid fun b hb => has b (List.mem_cons_of_mem _ hb)

/-- **Hints tell all.** A step asks to wait exactly when the machine awaits a key after it, and a
step that changes the display asks to show it again. So however steps, ticks, changes of the
keyboard and new sessions follow one another, the display is what it was after the last step that
asked to show it, or what it was at first, and a host that shows it just then shows the display as
it is. -/
theorem hints_tell_all (hm : m.Reachable) :
    (m.next.result = .ok .wait ↔ ∃ r, m.next.machine.activity = .awaitingKey r) ∧
    (m.next.machine.display ≠ m.display → m.next.result = .ok .redraw) ∧
    ∀ as : List Action, (∀ a ∈ as, a.HandsOff) →
      (¬ m.AsksRedraw as → (m.run as).display = m.display) ∧
      (∀ bs cs, as = bs ++ .next :: cs → (m.run bs).next.result = .ok .redraw →
        ¬ (m.run bs).next.machine.AsksRedraw cs →
        (m.run as).display = (m.run bs).next.machine.display) ∧
      m.shown m.display as = (m.run as).display := by
  refine ⟨next_wait_iff hm.valid, ?_, ?_⟩
  · intro hne
    exact Classical.byContradiction fun h => hne (next_display hm.valid h)
  · intro as has
    refine ⟨run_display hm.valid has, ?_, shown_run hm.valid has⟩
    rintro bs cs rfl - hlast
    have hbefore : (m.run bs).Valid :=
      (run_keeps_of_handsOff hm.valid fun a ha => has a (List.mem_append_left _ ha)).valid
    rw [run_append]
    exact run_display (next_keeps hbefore).valid
      (fun a ha => has a (List.mem_append_right _ (List.mem_cons_of_mem _ ha))) hlast

/-- A program that clears a display with a lit pixel and then waits for a key. -/
theorem hints_tell_all_clear :
    ∃ m : Machine, m.Reachable ∧ m.display = (Display.blank 2 1).paint 1 0 true ∧
      m.next.result = .ok .redraw ∧
      (m.run [.next, .tick]).next.result = .ok .wait ∧
      (m.run [.next, .tick]).next.machine.activity = .awaitingKey 3 ∧
      (m.run [.next, .tick, .next]).display = Display.blank 2 1 ∧
      m.shown m.display [.next, .tick, .next] = Display.blank 2 1 := by
  obtain ⟨m, hm, hrunning, hcounter, -, hlit, -, -, hbytes⟩ :=
    exists_booted ⟨"clear", [0x00, 0xE0, 0xF3, 0x0A]⟩ (by decide)
      ((Display.blank 2 1).paint 1 0 true) .released (.cycle #[])
  have hclear : m.instruction = .ok .clear :=
    instruction_of_cells hcounter (by decide) (hbytes 0 (by decide)) (hbytes 1 (by decide))
  have hnext := next_of_execute hrunning hclear Work.execute_clear hm.valid.fetched.counter
  have hcleared : m.next.machine.display = Display.blank 2 1 := by
    rw [hnext]
    show m.display.clear = Display.blank 2 1
    rw [hlit]
    decide
  -- the wait is met where the step over the clearing has left the program counter
  have hwait : (m.run [.next, .tick]).instruction = .ok (.waitKey 3) := by
    have hpast : (m.run [.next, .tick]).counter = 0x202 := by
      rw [run, act, hnext]
      show wrap (wrap (m.counter + wordSize)) = 0x202
      rw [hcounter]
      rfl
    have hmemory : (m.run [.next, .tick]).memory = m.memory := by
      rw [run, act, hnext]
      rfl
    exact instruction_of_data hbytes hmemory (k := 2) hpast (by decide)
  have hrun : (m.run [.next, .tick]).Reachable :=
    hm.run fun a ha => by
      simp only [List.mem_cons, List.not_mem_nil, or_false] at ha
      rcases ha with rfl | rfl <;> trivial
  have hawaits : (m.run [.next, .tick]).next.machine.activity = .awaitingKey 3 := by
    have hrunning' : (m.run [.next, .tick]).activity = .running := by
      rw [run, act, hnext]
      exact hrunning
    rw [next_of_execute hrunning' hwait (Work.execute_waitKey 3) hrun.valid.fetched.counter]
  have hasks := (hints_tell_all hrun).1.2 ⟨3, hawaits⟩
  have hredraws : m.next.result = .ok .redraw := by rw [hnext]
  have hquiet : ¬ m.next.machine.AsksRedraw [.tick, .next] := by
    rintro ⟨bs, cs, hbs, hredraw⟩
    rcases bs with _ | ⟨b, _ | ⟨c, bs⟩⟩
    · simp at hbs
    · obtain ⟨rfl, -⟩ : Action.tick = b ∧ _ := by simpa using hbs
      exact absurd (hasks.symm.trans hredraw) (by simp)
    · simp at hbs
  have hplay : ∀ a ∈ ([.next, .tick, .next] : List Action), a.HandsOff := by
    simp [Action.HandsOff]
  obtain ⟨-, hlast, hshown⟩ := (hints_tell_all hm).2.2 _ hplay
  have hdisplay := (hlast [] [.tick, .next] rfl hredraws hquiet).trans hcleared
  exact ⟨m, hm, hlit, hredraws, hasks, hawaits, hdisplay, hshown.trans hdisplay⟩

end Machine

end SpriteVM
