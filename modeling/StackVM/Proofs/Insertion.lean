import StackVM.Proofs.Redirect
import StackVM.Proofs.Transitions

set_option autoImplicit false

/-! # Inserting instructions

A block of instructions is inserted into a program behind a jump over it, and every jump of the
program is redirected to where its target has moved. The program still does what it did: where
control passed from one place to another, it passes from the shifted place to the other one,
possibly by the jump over the block (`Program.step_insertBlock`). So runs end alike, with the
pointer shifted (`Machine.ends_insertBlock_iff`). -/

namespace StackVM

open StateTransition

/-! ## The program with a block inserted -/

/-- Where a place has moved to when `count` instructions are inserted before `position`. -/
def shift (position count place : Nat) : Nat :=
  if place < position then place else place + count

/-- The configuration with its place shifted. -/
def Config.shift (position count : Nat) (config : Config) : Config :=
  { config with pc := StackVM.shift position count config.pc }

namespace Program

/-- The number of instructions inserted with a block: a jump over it comes before it. -/
def inserted (block : Program) : Nat := block.length + 1

/-- The program with a block inserted before `position`. A jump leads over the block, and the jumps
    of the program go to where their targets have moved. -/
def insertBlock (program : Program) (position : Nat) (block : Program) : Program :=
  (program.take position).map (Instr.redirect (shift position block.inserted)) ++
    .jump (.ofNat (position + block.inserted)) :: block ++
    (program.drop position).map (Instr.redirect (shift position block.inserted))

variable {program block : Program} {position place target : Nat} {limit : Option Int}
  {config : Config} {s : Stack}

theorem length_insertBlock (h : position ≤ program.length) :
    (program.insertBlock position block).length = program.length + block.inserted := by
  simp only [insertBlock, inserted, List.length_append, List.length_map, List.length_cons,
    List.length_take, List.length_drop]
  omega

/-- At the shifted place is the redirected instruction. -/
theorem getElem?_insertBlock_shift (h : position ≤ program.length) :
    (program.insertBlock position block)[shift position block.inserted place]? =
      program[place]?.map (Instr.redirect (shift position block.inserted)) := by
  unfold insertBlock
  generalize Instr.redirect (shift position block.inserted) = redirect
  by_cases hplace : place < position
  · have hin : place < ((program.take position).map redirect).length := by
      rw [List.length_map, List.length_take]
      omega
    rw [shift, if_pos hplace, List.append_assoc, List.getElem?_append_left hin, List.getElem?_map,
      List.getElem?_take_of_lt hplace]
  · have hlength : ((program.take position).map redirect ++
        .jump (.ofNat (position + block.inserted)) :: block).length =
          position + block.inserted := by
      rw [List.length_append, List.length_map, List.length_take, List.length_cons, inserted]
      omega
    have hindex : place + block.inserted - (position + block.inserted) = place - position :=
      Nat.add_sub_add_right place block.inserted position
    rw [shift, if_neg hplace, List.getElem?_append_right (by omega), hlength, hindex,
      List.getElem?_map, List.getElem?_drop, Nat.add_sub_cancel' (Nat.le_of_not_lt hplace)]

theorem getElem?_insertBlock_position (h : position ≤ program.length) :
    (program.insertBlock position block)[position]? =
      some (.jump (.ofNat (position + block.inserted))) := by
  have hlength : ((program.take position).map
      (Instr.redirect (shift position block.inserted))).length = position := by
    rw [List.length_map, List.length_take, Nat.min_eq_left h]
  rw [insertBlock, List.append_assoc, List.getElem?_append_right (by omega), hlength, Nat.sub_self]
  rfl

/-! ## Steps -/

theorem enter_shift (h : position ≤ program.length) :
    Step.enter (program.insertBlock position block).length
        (shift position block.inserted target) s =
      (Step.enter program.length target s).map (Config.shift position block.inserted) := by
  have hlt : shift position block.inserted target < (program.insertBlock position block).length ↔
      target < program.length := by
    rw [length_insertBlock h, shift, inserted]
    split <;> omega
  unfold Step.enter
  by_cases hin : target < program.length
  · rw [if_pos (hlt.2 hin), if_pos hin]
    rfl
  · rw [if_neg (mt hlt.1 hin), if_neg hin]
    rfl

/-- The jump over the block leads to where the instruction at its place has moved. -/
theorem step_over_block (h : position ≤ program.length)
    (hover : Word32.IsIndex (position + block.inserted : Nat)) :
    (program.insertBlock position block).step limit ⟨position, s⟩ =
      (Step.enter program.length position s).map (Config.shift position block.inserted) := by
  have hfetch : (program.insertBlock position block)[position]? = _ :=
    getElem?_insertBlock_position h
  have hshift : shift position block.inserted position = position + block.inserted :=
    if_neg (Nat.lt_irrefl position)
  rw [step_of_fetch hfetch, ← enter_shift h, hshift, ← Route.step_enter]
  simp only [Instr.effect, Control.route, Word32.toNat_ofNat_natCast hover]

/-- A redirected instruction at a shifted place passes control to where the instruction passes it,
    unless to the following place and the jump over the block is there. -/
theorem route_redirect_step {control : Control} {pc : Nat} (h : position ≤ program.length)
    (hnext : control = .next → pc + 1 ≠ position) :
    ((control.redirect (shift position block.inserted)).route
        (program.insertBlock position block).length (shift position block.inserted pc)).step s =
      ((control.route program.length pc).step s).map (Config.shift position block.inserted) := by
  cases control with
  | next =>
    have hafter : shift position block.inserted pc + 1 =
        shift position block.inserted (pc + 1) := by
      have hpc := hnext rfl
      unfold shift
      split <;> split <;> omega
    simp only [Control.redirect, Control.route, Route.step_enter, hafter, enter_shift h]
  | goto target => simp only [Control.redirect, Control.route, Route.step_enter, enter_shift h]
  | halt result | fail fault => rfl

/-- Control passes to the following place either alike in both programs, or in the one with the
    block by the jump over it. -/
theorem step_insertBlock (h : position ≤ program.length)
    (hover : Word32.IsIndex (position + block.inserted : Nat))
    (htargets : ∀ instr ∈ program, ∀ target, instr.target? = some target →
      Word32.IsIndex (shift position block.inserted target)) (config : Config) :
    (program.insertBlock position block).step limit (config.shift position block.inserted) =
        (program.step limit config).map (Config.shift position block.inserted) ∨
      ∃ s, (program.insertBlock position block).step limit (config.shift position block.inserted) =
          .running ⟨position, s⟩ ∧
        (program.insertBlock position block).step limit ⟨position, s⟩ =
          (program.step limit config).map (Config.shift position block.inserted) := by
  have hplace : (program.insertBlock position block)[shift position block.inserted config.pc]? =
      program[config.pc]?.map (Instr.redirect (shift position block.inserted)) :=
    getElem?_insertBlock_shift h
  cases hfetch : program[config.pc]? with
  | none =>
    rw [hfetch] at hplace
    left
    rw [step_of_not_fetch hfetch, step_of_not_fetch hplace]
    rfl
  | some instr =>
    rw [hfetch, Option.map_some] at hplace
    have htarget := htargets instr (List.mem_of_getElem? hfetch)
    have hstep : (program.insertBlock position block).step limit
        (config.shift position block.inserted) =
          (((instr.effect limit config.stack).control.redirect
            (shift position block.inserted)).route (program.insertBlock position block).length
              (shift position block.inserted config.pc)).step
                (instr.effect limit config.stack).stack :=
      step_of_fetch_redirect hplace htarget
    rw [hstep, step_of_fetch hfetch]
    by_cases hfall : (instr.effect limit config.stack).control = .next ∧ config.pc + 1 = position
    · -- the place that follows is now the jump over the block
      obtain ⟨hcontrol, hnext⟩ := hfall
      right
      have hhere : shift position block.inserted config.pc + 1 = position := by
        rw [shift, if_pos (by omega), hnext]
      have hin : position < (program.insertBlock position block).length := by
        rw [length_insertBlock h, inserted]
        omega
      refine ⟨(instr.effect limit config.stack).stack, ?_, ?_⟩
      · rw [hcontrol, Control.redirect, Control.route, Route.step_enter, hhere, Step.enter,
          if_pos hin]
      · rw [hcontrol, Control.route, Route.step_enter, hnext, step_over_block h hover]
    · left
      exact route_redirect_step h fun hcontrol hnext => hfall ⟨hcontrol, hnext⟩

/-! ## Runs -/

/-- Runs of both programs end alike, from every configuration of the one. -/
theorem eval_insertBlock (h : position ≤ program.length)
    (hover : Word32.IsIndex (position + block.inserted : Nat))
    (htargets : ∀ instr ∈ program, ∀ target, instr.target? = some target →
      Word32.IsIndex (shift position block.inserted target)) (start : Config) :
    (program.insertBlock position block).eval limit (start.shift position block.inserted) =
      (program.eval limit start).map (Step.map (Config.shift position block.inserted)) := by
  refine eval_map (fun config => ?_) start
  rcases step_insertBlock h hover htargets config with hstep | ⟨s, hfirst, hsecond⟩
  · exact .single (congrArg some hstep)
  · exact .tail (.single (congrArg some hfirst)) (congrArg some hsecond)

/-- A run of the program with the block that begins at its beginning comes to where the first
    instruction has moved. -/
theorem eval_insertBlock_start (h : position ≤ program.length)
    (hover : Word32.IsIndex (position + block.inserted : Nat)) :
    (program.insertBlock position block).eval limit ⟨0, s⟩ =
      (program.insertBlock position block).eval limit
        (Config.shift position block.inserted ⟨0, s⟩) := by
  cases position with
  | succ position => rfl
  | zero =>
    -- the block is in front, and the run begins with the jump over it
    have hstep : (program.insertBlock 0 block).step limit ⟨0, s⟩ = _ := step_over_block h hover
    rw [← enter_shift h] at hstep
    exact eval_of_enter hstep

end Program

/-- **Inserting a block and redirecting the jumps preserves every run.** If the jump over the block
    and the redirected jumps are within the range of targets, the program with the block ends its
    run exactly when the program without it does, with the same ending and stack, and with the
    pointer where the place it was at has moved. -/
theorem Machine.ends_insertBlock_iff {program block : Program} {position : Nat}
    (h : position ≤ program.length) (hover : Word32.IsIndex (position + block.inserted : Nat))
    (htargets : ∀ instr ∈ program, ∀ target, instr.target? = some target →
      Word32.IsIndex (shift position block.inserted target))
    (machine : Machine) (ending : Ending) (ip : Int) (stack : Stack) :
    machine.Ends (program.insertBlock position block) ending ip stack ↔
      ∃ place : Nat, machine.Ends program ending place stack ∧
        ip = shift position block.inserted place := by
  rw [ends_iff, Program.eval_insertBlock_start h hover, Program.eval_insertBlock h hover htargets]
  constructor
  · rintro ⟨moved, rfl, hmem⟩
    obtain ⟨step, hstep, hmap⟩ := (Part.mem_map_iff _).1 hmem
    cases step with
    | running config => cases hmap
    | ended ending final =>
      obtain ⟨rfl, hfinal⟩ := Step.ended.inj hmap
      obtain ⟨rfl, rfl⟩ := Config.mk.inj hfinal
      exact ⟨final.pc, ends_iff.2 ⟨final.pc, rfl, hstep⟩, rfl⟩
  · rintro ⟨place, hends, rfl⟩
    obtain ⟨place', hplace, hmem⟩ := ends_iff.1 hends
    rw [Int.ofNat_inj] at hplace
    subst hplace
    exact ⟨_, rfl, (Part.mem_map_iff _).2 ⟨_, hmem, rfl⟩⟩

/-- Passes by a jump, and takes one over a return. -/
def Program.passBy : Program := [.const 5, .const 0, .jumpIf 9, .jump 5, .ret, .ret]

/-- A return inserted where the run passes by a jump is jumped over. -/
theorem Machine.ends_insertBlock_iff_of_passBy :
    Program.passBy.insertBlock 3 [.ret] =
      [.const 5, .const 0, .jumpIf 11, .jump 5, .ret, .jump 7, .ret, .ret] ∧
    Ends { ip := 8, limit := some 2 } .passBy (.result 5) 5 [] ∧
    Ends { ip := 8, limit := some 2 } (Program.passBy.insertBlock 3 [.ret]) (.result 5) 7 [] := by
  have hends : Ends { ip := 8, limit := some 2 } .passBy (.result 5) 5 [] :=
    ⟨9, ⟨.result 5, ⟨5, []⟩, [0, 1, 2, 3, 5]⟩, { ip := 5, limit := some 2 }, by decide, rfl, rfl,
      rfl⟩
  have htargets : ∀ instr ∈ Program.passBy, ∀ target, instr.target? = some target →
      Word32.IsIndex (shift 3 (Program.inserted [.ret]) target) := by
    change ∀ instr ∈ Program.passBy, ∀ target ∈ instr.target?, _
    decide
  exact ⟨by decide, hends,
    (ends_insertBlock_iff (by decide) (by decide) htargets _ _ _ _).2 ⟨5, hends, rfl⟩⟩

end StackVM
