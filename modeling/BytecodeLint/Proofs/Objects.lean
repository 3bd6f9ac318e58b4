import BytecodeLint.Proofs.Application
import BytecodeLint.Proofs.Origin
import Mathlib.Logic.Relation
import Mathlib.Tactic.Tauto

/-!
# Executions with the identity of every object

A machine on which two entries of the operand stack can be told to hold the
same object.  An object that the method allocates is known by the time of
its allocation.  A value that is loaded, read from a field or returned by a
call may be any value that exists by then, so a path of this machine allows
for copies that are kept in local variables or elsewhere.  Every entry also
tells which instruction made it.

There are five groups.

* `Value`, `Entry` and `Moment` are the data.
* `Instruction.Performs` executes one instruction.
* `Method.Continues` goes on to the next instruction, and `Method.Proceeds`
  takes any step of control.  `Method.ComesTo` is any number of them.
* The shape of what an instruction leaves: it takes as many entries as the
  walk counts, and what lies below them stays.
* `existsAt_of_comesTo`: no execution comes upon an object that is still to
  be allocated.
-/

namespace BytecodeLint

/-! ## Entries -/

/-- What tells one value from another. -/
inductive Value
  /-- The object that was allocated at the time `birth`. -/
  | object (birth : Nat)
  /-- A value that this execution has not allocated. -/
  | other
  deriving DecidableEq, Repr

/-- The value is there at the time `clock`. -/
def Value.ExistsAt (value : Value) (clock : Nat) : Prop :=
  ∀ birth, value = .object birth → birth < clock

structure Entry where
  value : Value
  /-- The offset of the instruction that put the value on the stack.  An
  exception that was caught has none. -/
  maker : Option Nat
  deriving DecidableEq, Repr

/-- Control is at an instruction with a stack, when `clock` objects have been
allocated. -/
structure Moment where
  instruction : Instruction
  stack : List Entry
  clock : Nat
  deriving DecidableEq, Repr

/-! ## Executing an instruction -/

/-- The effect puts values of its own.  The other effects only move values
or allocate an object. -/
def Effect.computes : Effect → Bool
  | .dup .. | .swap | .checkCast | .allocate => false
  | _ => true

/-- The instruction takes the stack `stack` at the time `clock` to the stack
`after` at the time `later`. -/
inductive Instruction.Performs (inst : Instruction) :
    (stack : List Entry) → (clock : Nat) → (after : List Entry) → (later : Nat) → Prop
  | dup {copy under stack clock} (effect : inst.opcode.effect? = some (.dup copy under))
      (deep : copy + under ≤ stack.length) :
      Performs inst stack clock
        (stack.take (copy + under) ++ stack.take copy ++ stack.drop (copy + under)) clock
  | swap {first second rest clock} (effect : inst.opcode.effect? = some .swap) :
      Performs inst (first :: second :: rest) clock (second :: first :: rest) clock
  | checkCast {first rest clock} (effect : inst.opcode.effect? = some .checkCast) :
      Performs inst (first :: rest) clock (first :: rest) clock
  | allocate {stack clock} (effect : inst.opcode.effect? = some .allocate) :
      Performs inst stack clock (⟨.object clock, some inst.offset⟩ :: stack) (clock + 1)
  | compute {effect counts results stack clock} (opcode : inst.opcode.effect? = some effect)
      (computes : effect.computes = true) (counted : inst.countSlots effect = .ok counts)
      (deep : counts.pops ≤ stack.length) (enough : results.length = counts.pushes)
      (made : ∀ entry ∈ results,
        entry.maker = some inst.offset ∧ entry.value.ExistsAt clock) :
      Performs inst stack clock (results ++ stack.drop counts.pops) clock

/-! ## Steps of control -/

namespace Method

/-- A step to the next instruction in the code. -/
inductive Continues (method : Method) : Moment → Moment → Prop
  | next {inst following stack clock after later}
      (adjacent : [inst, following] <:+: method.code)
      (conditional : inst.opcode ∉ Opcode.unconditional)
      (performs : inst.Performs stack clock after later) :
      Continues method ⟨inst, stack, clock⟩ ⟨following, after, later⟩

theorem Continues.adjacent {method : Method} {moment following : Moment}
    (h : method.Continues moment following) :
    [moment.instruction, following.instruction] <:+: method.code := by
  cases h
  assumption

theorem Continues.performs {method : Method} {moment following : Moment}
    (h : method.Continues moment following) :
    moment.instruction.Performs moment.stack moment.clock following.stack following.clock := by
  cases h
  assumption

/-- Any step of control. -/
inductive Proceeds (method : Method) : Moment → Moment → Prop
  | next {moment following} (continues : method.Continues moment following) :
      Proceeds method moment following
  | jump {inst destination stack clock after later} (declared : destination ∈ method.code)
      (target : destination.offset ∈ inst.targets)
      (performs : inst.Performs stack clock after later) :
      Proceeds method ⟨inst, stack, clock⟩ ⟨destination, after, later⟩
  /-- An exception leads from any instruction to any handler. -/
  | caught {inst handler stack clock thrown} (declared : handler ∈ method.code)
      (isHandler : method.isHandler handler.offset = true) (unmade : thrown.maker = none)
      (known : thrown.value.ExistsAt clock) :
      Proceeds method ⟨inst, stack, clock⟩ ⟨handler, [thrown], clock⟩

/-- Some execution of the method comes to the moment. -/
def ComesTo (method : Method) (moment : Moment) : Prop :=
  ∃ first, method.code.head? = some first ∧
    Relation.ReflTransGen method.Proceeds ⟨first, [], 0⟩ moment

theorem mem_code_of_comesTo {method : Method} {moment : Moment} (h : method.ComesTo moment) :
    moment.instruction ∈ method.code := by
  obtain ⟨first, hfirst, hsteps⟩ := h
  cases hsteps with
  | refl => exact List.mem_of_mem_head? hfirst
  | tail _ hstep =>
    cases hstep with
    | next continues =>
      exact continues.adjacent.subset (List.mem_cons_of_mem _ (List.mem_singleton_self _))
    | jump declared => exact declared
    | caught declared => exact declared

end Method

/-! ## What an instruction leaves -/

namespace Instruction

variable {inst : Instruction} {stack after : List Entry} {clock later : Nat}
  {counts : StackEffect}

/-- An instruction takes as many entries as are counted and puts as many,
and it does not touch what lies below. -/
theorem Performs.shape (h : inst.Performs stack clock after later) {effect : Effect}
    (heffect : inst.opcode.effect? = some effect) (hcounts : inst.countSlots effect = .ok counts) :
    counts.pops ≤ stack.length ∧
      ∃ heads, heads.length = counts.pushes ∧ after = heads ++ stack.drop counts.pops := by
  cases h with
  | @dup copy under _ _ opcode deep =>
    cases heffect.symm.trans opcode
    cases hcounts
    refine ⟨deep, stack.take (copy + under) ++ stack.take copy, ?_, rfl⟩
    rw [List.length_append, List.length_take_of_le deep,
      List.length_take_of_le (Nat.le_of_add_right_le deep)]
    show copy + under + copy = copy * 2 + under
    omega
  | @swap first second rest _ opcode =>
    cases heffect.symm.trans opcode
    cases hcounts
    exact ⟨by simp, [second, first], rfl, rfl⟩
  | @checkCast first rest _ opcode =>
    cases heffect.symm.trans opcode
    cases hcounts
    exact ⟨by simp, [first], rfl, rfl⟩
  | allocate opcode =>
    cases heffect.symm.trans opcode
    cases hcounts
    exact ⟨Nat.zero_le _, [_], rfl, rfl⟩
  | @compute _ _ results _ _ opcode _ counted deep enough _ =>
    cases heffect.symm.trans opcode
    cases hcounts.symm.trans counted
    exact ⟨deep, results, enough, rfl⟩

/-- An instruction may put values that this execution has not allocated. -/
theorem performs_others {effect : Effect} (heffect : inst.opcode.effect? = some effect)
    (hcomputes : effect.computes = true) (hcounts : inst.countSlots effect = .ok counts)
    (hdeep : counts.pops ≤ stack.length) (clock : Nat) :
    inst.Performs stack clock
      (List.replicate counts.pushes ⟨.other, some inst.offset⟩ ++ stack.drop counts.pops) clock := by
  refine .compute heffect hcomputes hcounts hdeep List.length_replicate fun entry hentry => ?_
  rw [List.eq_of_mem_replicate hentry]
  exact ⟨rfl, fun birth hbirth => by cases hbirth⟩

/-- The stack that an instruction leaves which puts only values that this
execution has not allocated. -/
def others? (inst : Instruction) (stack : List Entry) : Option (List Entry) :=
  match inst.opcode.effect? with
  | none => none
  | some effect =>
    match inst.countSlots effect with
    | .error _ => none
    | .ok counts =>
      if effect.computes && counts.pops ≤ stack.length then
        some (List.replicate counts.pushes ⟨.other, some inst.offset⟩ ++ stack.drop counts.pops)
      else
        none

theorem performs_of_others? (h : inst.others? stack = some after) :
    inst.Performs stack clock after clock := by
  unfold others? at h
  cases heffect : inst.opcode.effect? with
  | none =>
    rw [heffect] at h
    cases h
  | some effect =>
    cases hcounts : inst.countSlots effect with
    | error fault =>
      simp only [heffect, hcounts] at h
      cases h
    | ok counts =>
      simp only [heffect, hcounts] at h
      split at h
      · rename_i hruns
        rw [Bool.and_eq_true, decide_eq_true_eq] at hruns
        cases h
        exact performs_others heffect hruns.1 hcounts hruns.2 clock
      · cases h

/-- An instruction that finds the entries that it takes can be executed. -/
theorem exists_performs (clock : Nat) {effect : Effect}
    (heffect : inst.opcode.effect? = some effect) (hcounts : inst.countSlots effect = .ok counts)
    (hdeep : counts.pops ≤ stack.length) : ∃ after later, inst.Performs stack clock after later := by
  by_cases hcomputes : effect.computes = true
  · exact ⟨_, _, performs_others heffect hcomputes hcounts hdeep clock⟩
  · cases effect with
    | dup copy under =>
      cases hcounts
      exact ⟨_, _, .dup heffect hdeep⟩
    | swap =>
      cases hcounts
      match stack, hdeep with
      | first :: second :: rest, _ => exact ⟨_, _, .swap heffect⟩
    | checkCast =>
      cases hcounts
      match stack, hdeep with
      | first :: rest, _ => exact ⟨_, _, .checkCast heffect⟩
    | allocate => exact ⟨_, _, .allocate heffect⟩
    | _ => exact absurd rfl hcomputes

/-- What an instruction puts on top of the stack is its own. -/
theorem Performs.results (h : inst.Performs stack clock after later) {effect : Effect}
    (heffect : inst.opcode.effect? = some effect) (hcomputes : effect.computes = true)
    (hcounts : inst.countSlots effect = .ok counts) :
    ∃ results, after = results ++ stack.drop counts.pops ∧ results.length = counts.pushes ∧
      ∀ entry ∈ results, entry.maker = some inst.offset := by
  cases h with
  | @compute _ _ results _ _ opcode _ counted _ enough made =>
    cases heffect.symm.trans opcode
    cases hcounts.symm.trans counted
    exact ⟨results, rfl, enough, fun entry hentry => (made entry hentry).1⟩
  | dup opcode | swap opcode | checkCast opcode | allocate opcode =>
    cases heffect.symm.trans opcode
    cases hcomputes

/-- The top entry that an instruction leaves is its own, if it puts any. -/
theorem Performs.made (h : inst.Performs stack clock after later) {effect : Effect}
    (heffect : inst.opcode.effect? = some effect) (hcomputes : effect.computes = true)
    (hcounts : inst.countSlots effect = .ok counts) (hpushes : 0 < counts.pushes) :
    ∃ top rest, after = top :: rest ∧ top.maker = some inst.offset := by
  obtain ⟨results, rfl, hlength, hmade⟩ := h.results heffect hcomputes hcounts
  cases results with
  | nil =>
    rw [← hlength] at hpushes
    exact absurd hpushes (Nat.lt_irrefl 0)
  | cons top rest => exact ⟨top, _, rfl, hmade top (List.mem_cons_self ..)⟩

/-- Only an allocation takes time. -/
theorem Performs.clock_eq (h : inst.Performs stack clock after later)
    (hkeeps : inst.opcode.effect? ≠ some .allocate) : later = clock := by
  cases h with
  | allocate effect => exact absurd effect hkeeps
  | _ => rfl

end Instruction

/-! ## Objects exist before they are found -/

theorem Value.ExistsAt.mono {value : Value} {clock later : Nat} (h : value.ExistsAt clock)
    (hle : clock ≤ later) : value.ExistsAt later :=
  fun birth hbirth => Nat.lt_of_lt_of_le (h birth hbirth) hle

/-- An instruction puts only values that are there when it is done. -/
theorem Instruction.Performs.existsAt {inst : Instruction} {stack after : List Entry}
    {clock later : Nat} (h : inst.Performs stack clock after later)
    (hstack : ∀ entry ∈ stack, entry.value.ExistsAt clock) :
    ∀ entry ∈ after, entry.value.ExistsAt later := by
  cases h with
  | dup =>
    intro entry hentry
    rcases List.mem_append.1 hentry with hentry | hentry
    · rcases List.mem_append.1 hentry with hentry | hentry
      · exact hstack entry (List.mem_of_mem_take hentry)
      · exact hstack entry (List.mem_of_mem_take hentry)
    · exact hstack entry (List.mem_of_mem_drop hentry)
  | swap =>
    intro entry hentry
    refine hstack entry ?_
    simp only [List.mem_cons] at hentry ⊢
    tauto
  | checkCast => exact hstack
  | allocate =>
    intro entry hentry
    rcases List.mem_cons.1 hentry with rfl | hentry
    · intro birth hbirth
      cases hbirth
      exact Nat.lt_succ_self clock
    · exact (hstack entry hentry).mono (Nat.le_succ clock)
  | compute _ _ _ _ _ made =>
    intro entry hentry
    rcases List.mem_append.1 hentry with hentry | hentry
    · exact (made entry hentry).2
    · exact hstack entry (List.mem_of_mem_drop hentry)

namespace Method

variable {method : Method} {moment following : Moment}

theorem Proceeds.existsAt (h : method.Proceeds moment following)
    (hstack : ∀ entry ∈ moment.stack, entry.value.ExistsAt moment.clock) :
    ∀ entry ∈ following.stack, entry.value.ExistsAt following.clock := by
  cases h with
  | next continues => exact continues.performs.existsAt hstack
  | jump _ _ performs => exact performs.existsAt hstack
  | caught _ _ _ known =>
    intro entry hentry
    rw [List.mem_singleton.1 hentry]
    exact known

/-- Every object on the stack has been allocated. -/
theorem existsAt_of_comesTo (h : method.ComesTo moment) :
    ∀ entry ∈ moment.stack, entry.value.ExistsAt moment.clock := by
  obtain ⟨first, _, hsteps⟩ := h
  induction hsteps with
  | refl => exact fun _ hentry => absurd hentry List.not_mem_nil
  | tail _ hstep ih => exact hstep.existsAt ih

end Method

end BytecodeLint
