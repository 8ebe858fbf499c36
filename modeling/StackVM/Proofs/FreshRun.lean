import StackVM.Session

set_option autoImplicit false

/-! # What a run leaves of the past

A run of a program begins with the pointer at 0 and an empty stack. Of the machine it reads the limit
and whether the lines are wanted, and it leaves a pointer and a stack of its own
(`Machine.act_run_eq`). So nothing that was done before can be seen from a run on
(`Machine.session_run_eq`). The budget is no part of what can be seen either: whatever is enough for
all runs of a session leads to the same answers (`Machine.session_unique`). -/

namespace StackVM

namespace Machine

variable {machine : Machine} {m n : Nat}

/-! ## The budget -/

/-- An action that has an outcome has the same one under a greater budget. -/
theorem act_mono (hmn : m ≤ n) {action : Action} {outcome : Outcome}
    (h : machine.act m action = some outcome) : machine.act n action = some outcome := by
  cases action with
  | run raws =>
    simp only [act] at h ⊢
    cases hbuild : Program.build raws with
    | error error => rwa [hbuild] at h
    | ok program =>
      simp only [hbuild, run, Option.map_map, Option.map_eq_some_iff] at h ⊢
      obtain ⟨report, hrun, houtcome⟩ := h
      exact ⟨report, Program.runFrom_mono hmn hrun, houtcome⟩
  | _ => exact h

theorem session_cons_eq_some_iff {action : Action} {rest : List Action} {answers : List Answer}
    {last : Machine} :
    machine.session n (action :: rest) = some (answers, last) ↔
      ∃ outcome others, machine.act n action = some outcome ∧
        outcome.machine.session n rest = some (others, last) ∧
        answers = outcome.machine.answer outcome.reply outcome.lines :: others := by
  simp only [session, Option.bind_eq_bind, Option.bind_eq_some_iff, Option.pure_def,
    Option.some.injEq, Prod.mk.injEq]
  constructor
  · rintro ⟨outcome, hact, ⟨others, _⟩, hrest, rfl, rfl⟩
    exact ⟨outcome, others, hact, hrest, rfl⟩
  · rintro ⟨outcome, others, hact, hrest, rfl⟩
    exact ⟨outcome, hact, ⟨others, last⟩, hrest, rfl, rfl⟩

/-- A session all of whose runs end does the same under a greater budget. -/
theorem session_mono (hmn : m ≤ n) {actions : List Action} {answers : List Answer} {last : Machine}
    (h : machine.session m actions = some (answers, last)) :
    machine.session n actions = some (answers, last) := by
  induction actions generalizing machine answers with
  | nil => exact h
  | cons action rest ih =>
    obtain ⟨outcome, others, hact, hrest, hanswers⟩ := session_cons_eq_some_iff.1 h
    exact session_cons_eq_some_iff.2 ⟨outcome, others, act_mono hmn hact, ih hrest, hanswers⟩

/-- Two budgets that are enough for a session lead to the same answers and the same machine. -/
theorem session_unique {actions : List Action} {answers₁ answers₂ : List Answer}
    {last₁ last₂ : Machine} (h₁ : machine.session m actions = some (answers₁, last₁))
    (h₂ : machine.session n actions = some (answers₂, last₂)) :
    answers₁ = answers₂ ∧ last₁ = last₂ := by
  have h₁' := session_mono (Nat.le_max_left m n) h₁
  have h₂' := session_mono (Nat.le_max_right m n) h₂
  rw [h₁', Option.some.injEq, Prod.mk.injEq] at h₂'
  exact h₂'

/-! ## Machines with the same settings -/

/-- The machines have the same limit and both write lines or neither does. Their pointers and stacks
    are any. -/
structure SameSettings (m₁ m₂ : Machine) : Prop where
  limit : m₁.limit = m₂.limit
  tracing : m₁.tracing = m₂.tracing

namespace SameSettings

variable {m₁ m₂ : Machine}

/-- A run ends alike on both, with the same lines, and makes them the same machine. -/
theorem act_run_eq (h : SameSettings m₁ m₂) {raws : List RawInstr} {program : Program}
    (hbuild : Program.build raws = .ok program) (budget : Nat) :
    m₁.act budget (.run raws) = m₂.act budget (.run raws) := by
  obtain ⟨ip₁, stack₁, limit, tracing⟩ := m₁
  obtain ⟨ip₂, stack₂, limit₂, tracing₂⟩ := m₂
  obtain ⟨rfl, rfl⟩ : limit = limit₂ ∧ tracing = tracing₂ := ⟨h.limit, h.tracing⟩
  simp only [act, hbuild, run, Option.map_map]
  -- both outcomes are now made of the report and the settings
  rfl

theorem session_run (h : SameSettings m₁ m₂) {raws : List RawInstr} {program : Program}
    (hbuild : Program.build raws = .ok program) (budget : Nat) (rest : List Action) :
    m₁.session budget (.run raws :: rest) = m₂.session budget (.run raws :: rest) := by
  simp only [session, h.act_run_eq hbuild]

end SameSettings

/-- **A run erases the history of its machine.** Let two machines have the same settings, whatever has
    been done to them before. A session that begins with a run of a program that is built gives the
    same answers on both and makes them the same machine: with any budget the runs of the one all end
    when those of the other do, and no two budgets make a difference. -/
theorem session_run_eq {m₁ m₂ : Machine} (hsettings : SameSettings m₁ m₂) {raws : List RawInstr}
    {program : Program} (hbuild : Program.build raws = .ok program) (rest : List Action) :
    (∀ budget, m₁.session budget (.run raws :: rest) = m₂.session budget (.run raws :: rest)) ∧
    ∀ budget₁ budget₂ answers₁ answers₂ last₁ last₂,
      m₁.session budget₁ (.run raws :: rest) = some (answers₁, last₁) →
      m₂.session budget₂ (.run raws :: rest) = some (answers₂, last₂) →
      answers₁ = answers₂ ∧ last₁ = last₂ := by
  refine ⟨fun budget => hsettings.session_run hbuild budget rest, ?_⟩
  intro budget₁ budget₂ answers₁ answers₂ last₁ last₂ h₁ h₂
  rw [hsettings.session_run hbuild budget₁ rest] at h₁
  exact session_unique h₁ h₂

/-- A machine that is left with a pointer outside of any program and a full stack, and a new one. The
    run leaves one constant on both, of which the next action pops too many. -/
theorem session_run_eq_of_usedUp :
    SameSettings { ip := 8, stack := [⟨some "x", 1⟩, ⟨none, 2⟩], limit := some 2 }
      { limit := some 2 } ∧
    Program.build ([.const 5, .const 6, .ret].map RawInstr.ofInstr) =
      .ok [.const 5, .const 6, .ret] ∧
    session { ip := 8, stack := [⟨some "x", 1⟩, ⟨none, 2⟩], limit := some 2 } 9
        [.run ([.const 5, .const 6, .ret].map RawInstr.ofInstr), .pop 2, .advance 2] =
      some ([⟨.result 6, 2, [⟨none, 5⟩], none⟩, ⟨.fault { kind := .stackUnderflow }, 2, [], none⟩,
          ⟨.fault { kind := .invalidPointer }, 3, [], none⟩], { ip := 3, limit := some 2 }) ∧
    session { limit := some 2 } 9
        [.run ([.const 5, .const 6, .ret].map RawInstr.ofInstr), .pop 2, .advance 2] =
      some ([⟨.result 6, 2, [⟨none, 5⟩], none⟩, ⟨.fault { kind := .stackUnderflow }, 2, [], none⟩,
          ⟨.fault { kind := .invalidPointer }, 3, [], none⟩], { ip := 3, limit := some 2 }) ∧
    ∀ budget answers last, session { limit := some 2 } budget
        [.run ([.const 5, .const 6, .ret].map RawInstr.ofInstr), .pop 2, .advance 2] =
      some (answers, last) → last = { ip := 3, limit := some 2 } := by
  have hsettings : SameSettings { ip := 8, stack := [⟨some "x", 1⟩, ⟨none, 2⟩], limit := some 2 }
      { limit := some 2 } := ⟨rfl, rfl⟩
  have hbuild : Program.build ([.const 5, .const 6, .ret].map RawInstr.ofInstr) =
      .ok [.const 5, .const 6, .ret] := rfl
  have hsession : session { ip := 8, stack := [⟨some "x", 1⟩, ⟨none, 2⟩], limit := some 2 } 9
        [.run ([.const 5, .const 6, .ret].map RawInstr.ofInstr), .pop 2, .advance 2] =
      some ([⟨.result 6, 2, [⟨none, 5⟩], none⟩, ⟨.fault { kind := .stackUnderflow }, 2, [], none⟩,
          ⟨.fault { kind := .invalidPointer }, 3, [], none⟩], { ip := 3, limit := some 2 }) := rfl
  obtain ⟨hsame, hbudgets⟩ := session_run_eq hsettings hbuild [.pop 2, .advance 2]
  refine ⟨hsettings, hbuild, hsession, (hsame 9).symm.trans hsession, ?_⟩
  intro budget answers last hother
  exact (hbudgets 9 budget _ _ _ _ hsession hother).2.symm

end Machine

end StackVM
