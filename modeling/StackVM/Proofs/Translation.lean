import StackVM.Proofs.Output

set_option autoImplicit false

/-! # Programs that run in step

A translation of places, stacks and faults turns the run of one program into that of another, one
instruction for one. The other program has the counterpart of each instruction at the translation of
its place, and on the translation of a stack the counterpart has the translated effect. When that is
so at every configuration the one run fetches at, the other run is its translation from beginning to
end (`Translation.Places.runFrom_eq`). -/

namespace StackVM

/-- A translation of what a run deals with. Places that follow one another stay so, and a fault that
    names nothing stays as it is. -/
structure Translation where
  place : Nat → Nat
  stack : Stack → Stack
  fault : Fault → Fault
  place_succ : ∀ pc, place (pc + 1) = place pc + 1
  fault_of_kind : ∀ kind, fault { kind } = { kind }

namespace Translation

variable (τ : Translation)

def control : Control → Control
  | .next => .next
  | .goto target => .goto (τ.place target)
  | .halt result => .halt result
  | .fail fault => .fail (τ.fault fault)

def effect (effect : Effect) : Effect := ⟨τ.control effect.control, τ.stack effect.stack⟩

def ending : Ending → Ending
  | .result value => .result value
  | .fault fault => .fault (τ.fault fault)

def config (config : Config) : Config := ⟨τ.place config.pc, τ.stack config.stack⟩

def route : Route → Route
  | .on target => .on (τ.place target)
  | .out ending place => .out (τ.ending ending) (τ.place place)

def step : Step → Step
  | .running next => .running (τ.config next)
  | .ended ending final => .ended (τ.ending ending) (τ.config final)

def report (report : Report) : Report :=
  ⟨τ.ending report.ending, τ.config report.final, report.path.map τ.place⟩

/-! ## Effects -/

variable {τ} {p q : Program} {counterpart : Instr → Instr} {limit limit' : Option Int} {s : Stack}

/-- The effect of a push is translated if a cell of the name is there on both sides or on neither,
    and both stacks are full or neither is. -/
theorem effect_push (τ : Translation) {name name' : Option String} {value : Int}
    (hpresent : Stack.Present name' (τ.stack s) ↔ Stack.Present name s)
    (hfull : (τ.stack s).isFull limit' = s.isFull limit)
    (hcons : ⟨name', value⟩ :: τ.stack s = τ.stack (⟨name, value⟩ :: s))
    (hassign : ∀ x x', name = some x → name' = some x' →
      (τ.stack s).assign x' value = τ.stack (s.assign x value)) :
    Effect.push limit' name' value (τ.stack s) = τ.effect (Effect.push limit name value s) := by
  by_cases hp : Stack.Present name s
  · obtain ⟨x', rfl, hx'⟩ := hpresent.2 hp
    obtain ⟨x, rfl, hx⟩ := hp
    rw [Stack.effect_push_of_holds hx, Stack.effect_push_of_holds hx', hassign x x' rfl rfl]
    rfl
  · have hp' := mt hpresent.1 hp
    cases hs : s.isFull limit with
    | true =>
      rw [Stack.effect_push_of_isFull hp hs, Stack.effect_push_of_isFull hp' (hfull.trans hs),
        effect, control, τ.fault_of_kind]
    | false =>
      rw [Stack.effect_push_of_place hp hs, Stack.effect_push_of_place hp' (hfull.trans hs), hcons]
      rfl

/-! ## Programs -/

/-- The second program has the counterparts of the instructions of the first where they belong. -/
def Places (τ : Translation) (counterpart : Instr → Instr) (p q : Program) : Prop :=
  ∀ place, q[τ.place place]? = p[place]?.map counterpart

theorem Places.lt_length_iff (h : τ.Places counterpart p q) (target : Nat) :
    τ.place target < q.length ↔ target < p.length := by
  have hnone : q[τ.place target]? = none ↔ p[target]? = none := by
    rw [h target, Option.map_eq_none_iff]
  rw [List.getElem?_eq_none_iff, List.getElem?_eq_none_iff] at hnone
  omega

theorem Places.enter_eq (h : τ.Places counterpart p q) (target : Nat) :
    Route.enter q.length (τ.place target) = τ.route (.enter p.length target) := by
  unfold Route.enter
  by_cases hin : target < p.length
  · rw [if_pos hin, if_pos ((h.lt_length_iff target).2 hin)]
    rfl
  · rw [if_neg hin, if_neg (mt (h.lt_length_iff target).1 hin), route, ending,
      τ.fault_of_kind]

/-- The translated control takes the translated route. -/
theorem Places.route_eq (h : τ.Places counterpart p q) (control : Control) (pc : Nat) :
    (τ.control control).route q.length (τ.place pc) = τ.route (control.route p.length pc) := by
  cases control with
  | next => rw [Translation.control, Control.route, ← τ.place_succ, h.enter_eq, Control.route]
  | goto target => exact h.enter_eq target
  | halt result | fail fault => rfl

theorem step_route (s : Stack) (route : Route) :
    (τ.route route).step (τ.stack s) = τ.step (route.step s) := by
  cases route <;> rfl

/-- A step is translated if the effect of its instruction is. -/
theorem Places.step_eq (h : τ.Places counterpart p q) {config : Config}
    (heffect : ∀ instr, p[config.pc]? = some instr →
      (counterpart instr).effect limit' (τ.stack config.stack) =
        τ.effect (instr.effect limit config.stack)) :
    q.step limit' (τ.config config) = τ.step (p.step limit config) := by
  have hplace : q[(τ.config config).pc]? = p[config.pc]?.map counterpart := h config.pc
  cases hfetch : p[config.pc]? with
  | none =>
    rw [hfetch] at hplace
    rw [Program.step_of_not_fetch hfetch, Program.step_of_not_fetch hplace, step, ending,
      τ.fault_of_kind]
  | some instr =>
    rw [hfetch] at hplace
    rw [Program.step_of_fetch hfetch, Program.step_of_fetch hplace, ← step_route, ← h.route_eq]
    have hstack : (τ.config config).stack = τ.stack config.stack := rfl
    rw [hstack, heffect instr hfetch]
    rfl

/-- **Translated effects make a translated run.** If every instruction that a run fetches has its
    effect translated, the run of the other program is the translation of this one, within the same
    budget. -/
theorem Places.runFrom_eq (h : τ.Places counterpart p q) {budget : Nat} {start : Config}
    (heffect : ∀ config ∈ p.visited limit budget start, ∀ instr, p[config.pc]? = some instr →
      (counterpart instr).effect limit' (τ.stack config.stack) =
        τ.effect (instr.effect limit config.stack)) :
    q.runFrom limit' budget (τ.config start) = (p.runFrom limit budget start).map τ.report := by
  induction budget generalizing start with
  | zero => rfl
  | succ budget ih =>
    have hhere : start ∈ p.visited limit (budget + 1) start := List.mem_cons_self
    have hstep := h.step_eq (heffect start hhere)
    cases hs : p.step limit start with
    | running next =>
      have hrest := ih fun config hconfig => heffect config (by
        rw [Program.visited_of_running hs]
        exact List.mem_cons_of_mem _ hconfig)
      simp only [Program.runFrom, hstep, hs, step, hrest, Option.map_map]
      rfl
    | ended ending final =>
      have hpath : (if τ.place start.pc < q.length then [τ.place start.pc] else []) =
          (if start.pc < p.length then [start.pc] else []).map τ.place := by
        simp only [h.lt_length_iff]
        split <;> rfl
      simp only [Program.runFrom, hstep, hs, step, Option.map_some, report, ← hpath]
      rfl

end Translation

end StackVM
