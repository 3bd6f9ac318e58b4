import BytecodeLint.Proofs.Application
import Mathlib.Data.List.Chain

/-!
# Wide values stay whole

A wide value takes two slots, and its continuation lies below the slot that
carries the value.  Nothing but the order of the slots says so, and every
operation moves slots.  Here it is shown that the operations keep the order:
the top of the stack is no continuation, and no continuation lies directly
below another one.

An operation keeps the order only if it does not tear a wide value apart, so
there is a condition on each call: no group of slots that it moves ends just
above a continuation.

There are four groups.

* `LaidOut` is the order of the slots, and what keeps it.
* `StackCall` is a call of an operation, and `StackCall.Cuts` says that a call
  tears a wide value apart.
* `OperandStack.WellLaid.run` is about one call.
* `wellLaid_of_calls` is about a sequence of calls.
-/

namespace BytecodeLint

open OperandStack

/-! ## The order of the slots -/

/-- Of two neighbouring slots, at most one is a continuation. -/
def Slot.Apart (upper lower : Slot) : Prop :=
  upper = .continuation → lower ≠ .continuation

/-- Every continuation lies below a slot that is none. -/
structure LaidOut (slots : List Slot) : Prop where
  top : slots.head? ≠ some .continuation
  apart : slots.IsChain Slot.Apart

namespace LaidOut

variable {slots others : List Slot} {slot : Slot} {count width offset : Nat}

theorem nil : LaidOut [] :=
  ⟨by simp, List.IsChain.nil⟩

theorem singleton (h : slot ≠ .continuation) : LaidOut [slot] :=
  ⟨by simpa using h, List.IsChain.singleton slot⟩

/-- A value brings its own continuation. -/
theorem valueSlots (h : slot ≠ .continuation) : LaidOut (valueSlots slot width) := by
  unfold OperandStack.valueSlots
  split
  · exact ⟨by simpa using h, List.isChain_pair.2 fun hupper => absurd hupper h⟩
  · exact singleton h

theorem resultSlots : LaidOut (resultSlots count) := by
  unfold BytecodeLint.resultSlots
  split
  · exact nil
  · exact valueSlots (by decide)

theorem append (h : LaidOut slots) (hothers : LaidOut others) : LaidOut (slots ++ others) := by
  refine ⟨?_, List.isChain_append.2 ⟨h.apart, hothers.apart, fun _ _ lower hlower _ hcut => ?_⟩⟩
  · cases slots with
    | nil => exact hothers.top
    | cons first rest => exact h.top
  · rw [hcut] at hlower
    exact hothers.top hlower

theorem take (h : LaidOut slots) (count : Nat) : LaidOut (slots.take count) := by
  refine ⟨fun htop => h.top ?_, h.apart.take count⟩
  rw [List.head?_take] at htop
  split at htop
  · cases htop
  · exact htop

/-- What lies below a group of slots is laid out if the group does not end
just above a continuation. -/
theorem drop (h : LaidOut slots) (hbelow : slots[count]? ≠ some .continuation) :
    LaidOut (slots.drop count) :=
  ⟨by rwa [List.head?_drop], h.apart.drop count⟩

/-- Slots may cease to be continuations. -/
theorem of_fewer (h : LaidOut slots)
    (hfewer : ∀ k : Nat, others[k]? = some .continuation → slots[k]? = some .continuation) :
    LaidOut others := by
  refine ⟨fun htop => h.top ?_, List.isChain_iff_getElem.2 fun k hk hupper hlower => ?_⟩
  · rw [List.head?_eq_getElem?] at htop ⊢
    exact hfewer 0 htop
  · have hupper' := hfewer k (List.getElem?_eq_some_iff.2 ⟨Nat.lt_of_succ_lt hk, hupper⟩)
    have hlower' := hfewer (k + 1) (List.getElem?_eq_some_iff.2 ⟨hk, hlower⟩)
    obtain ⟨_, hupper'⟩ := List.getElem?_eq_some_iff.1 hupper'
    obtain ⟨hbound, hlower'⟩ := List.getElem?_eq_some_iff.1 hlower'
    exact List.isChain_iff_getElem.1 h.apart k hbound hupper' hlower'

theorem map {change : Slot → Slot} (h : LaidOut slots)
    (hchange : ∀ old, change old = .continuation → old = .continuation) :
    LaidOut (slots.map change) := by
  refine h.of_fewer fun k hk => ?_
  rw [List.getElem?_map] at hk
  obtain ⟨old, hold, hnew⟩ := Option.map_eq_some_iff.1 hk
  rw [hold, hchange old hnew]

theorem forget (h : LaidOut slots) : LaidOut (slots.map Slot.forget) := by
  refine h.map fun old hnew => ?_
  cases old with
  | continuation => rfl
  | value _ => cases hnew
  | constant _ => cases hnew
  | fresh _ => cases hnew

theorem replaced (h : LaidOut slots) (hslot : slot ≠ .continuation) (offset : Nat) :
    LaidOut (slots.map (replaced offset slot)) := by
  refine h.map fun old hnew => ?_
  unfold OperandStack.replaced at hnew
  split at hnew
  · exact absurd hnew hslot
  · exact hnew

/-- Stacks with different wide values join to a stack in which only the common
ones stay wide. -/
theorem join (h : LaidOut slots) (others : List Slot) :
    LaidOut (List.zipWith Slot.join slots others) := by
  refine h.of_fewer fun k hk => ?_
  rw [List.getElem?_zipWith] at hk
  split at hk
  · rename_i incoming recorded hincoming _
    have hjoin := Option.some_inj.1 hk
    unfold Slot.join at hjoin
    split at hjoin
    · rw [hincoming, hjoin]
    · cases hjoin
  · cases hk

/-- A copy is put below a group of slots. -/
theorem dup {copy under : Nat} (h : LaidOut slots)
    (hbelow : slots[copy + under]? ≠ some .continuation) :
    LaidOut (slots.take (copy + under) ++ slots.take copy ++ slots.drop (copy + under)) :=
  ((h.take _).append (h.take _)).append (h.drop hbelow)

theorem exchanged (h : LaidOut slots) (hsecond : slots[1]? ≠ some .continuation)
    (hbelow : slots[2]? ≠ some .continuation) : LaidOut (exchanged slots) := by
  match slots with
  | [] => exact h
  | [_] => exact h
  | first :: second :: rest =>
    have hfirst : first ≠ .continuation := fun hcut => h.top (congrArg some hcut)
    have hexchanged : second ≠ .continuation := fun hcut => hsecond (congrArg some hcut)
    exact ((singleton hexchanged).append (singleton hfirst)).append (h.drop hbelow)

end LaidOut

/-! ## Calls -/

/-- The sizes of the groups of slots on the top of the stack that an effect
takes off, copies, exchanges or puts a copy below. -/
def Effect.groups (counts : StackEffect) : Effect → List Nat
  | .dup copy under => [copy, copy + under]
  | .swap => [1, 2]
  | .pushConstant _ | .loadLocal _ | .getStatic | .allocate | .checkCast => []
  | .getField => [1]
  | .invoke | .replace .. | .putStatic | .putField | .invokeDynamic | .allocateArrays =>
    [counts.pops]

/-- The groups of an instruction that can be counted. -/
def Instruction.groups (inst : Instruction) : List Nat :=
  match inst.effect with
  | .ok effect =>
    match inst.countSlots effect with
    | .ok counts => effect.groups counts
    | .error _ => []
  | .error _ => []

/-- A call of an operation of the stack. -/
inductive StackCall
  | apply (inst : Instruction)
  | pushValue (slot : Slot) (slots : Nat)
  | pop (count : Nat)
  | dup (copy under : Nat)
  | swap
  | replaceObject (offset : Nat) (slot : Slot)
  | forget
  | noteJump (target : Nat)
  | enter (offset : Nat) (fallsThrough isHandler : Bool)
  deriving DecidableEq, Repr

namespace StackCall

def run : StackCall → StackM Unit
  | apply inst => inst.apply
  | pushValue slot slots => OperandStack.pushValue slot slots
  | pop count => do let _ ← OperandStack.pop count
  | dup copy under => OperandStack.dup copy under
  | swap => OperandStack.swap
  | replaceObject offset slot => OperandStack.replaceObject offset slot
  | forget => OperandStack.forget
  | noteJump target => OperandStack.noteJump target
  | enter offset fallsThrough isHandler => OperandStack.enter offset fallsThrough isHandler

/-- The sizes of the groups of slots that the call moves. -/
def groups : StackCall → List Nat
  | apply inst => inst.groups
  | pop count => [count]
  | dup copy under => [copy, copy + under]
  | swap => [1, 2]
  | pushValue .. | replaceObject .. | forget | noteJump _ | enter .. => []

/-- The call tears a wide value apart: a group that it moves ends just above a
continuation. -/
def Cuts (call : StackCall) (slots : List Slot) : Prop :=
  ∃ size ∈ call.groups, slots[size]? = some .continuation

instance (call : StackCall) (slots : List Slot) : Decidable (call.Cuts slots) :=
  inferInstanceAs (Decidable (∃ size ∈ call.groups, _))

/-- The slot that the call pushes as a value. -/
def pushed? : StackCall → Option Slot
  | pushValue slot _ => some slot
  | _ => none

/-- The slot that the call puts in the place of objects. -/
def replacing? : StackCall → Option Slot
  | replaceObject _ slot => some slot
  | _ => none

/-- The stack after a call that succeeds and tears nothing apart. -/
def step? (call : StackCall) (stack : OperandStack) : Option OperandStack :=
  if call.Cuts stack.slots then
    none
  else
    match call.run stack with
    | .ok _ after => some after
    | .error _ _ => none

/-- The stack after calls of this kind. -/
def follow? : List StackCall → OperandStack → Option OperandStack
  | [], stack => some stack
  | call :: rest, stack => (call.step? stack).bind (follow? rest)

end StackCall

/-! ## One call -/

/-- The slots are laid out, and so is every stack that jumps have recorded. -/
structure OperandStack.WellLaid (stack : OperandStack) : Prop where
  slots : LaidOut stack.slots
  recorded : ∀ entry ∈ stack.recorded, LaidOut entry.2

theorem LaidOut.calledSlots {rest : List Slot} (h : LaidOut rest) (inst : Instruction)
    (popped : List Slot) : LaidOut (inst.calledSlots popped rest) := by
  unfold Instruction.calledSlots
  split
  · split
    · exact h.replaced (by decide) _
    · exact h
  · exact h

theorem LaidOut.slotsAfter {slots : List Slot} {inst : Instruction} {counts : StackEffect}
    {effect : Effect} (h : LaidOut slots)
    (hwhole : ∀ size ∈ effect.groups counts, slots[size]? ≠ some .continuation) :
    LaidOut (inst.slotsAfter counts slots effect) := by
  have hpops (hgroups : effect.groups counts = [counts.pops]) :
      LaidOut (slots.drop counts.pops) := by
    refine h.drop (hwhole _ ?_)
    rw [hgroups]
    exact List.mem_singleton_self _
  cases effect with
  | pushConstant width => exact (valueSlots (by simp)).append h
  | loadLocal width =>
    refine (valueSlots ?_).append h
    unfold Instruction.loaded
    split <;> simp [Slot.unknown]
  | dup copy under => exact h.dup (hwhole _ (by simp [Effect.groups]))
  | swap =>
    exact h.exchanged (hwhole 1 (List.mem_cons_self ..)) (hwhole 2 (by simp [Effect.groups]))
  | getStatic =>
    simp only [Instruction.slotsAfter]
    split
    · exact (valueSlots (by simp)).append h
    · exact h
  | getField =>
    simp only [Instruction.slotsAfter]
    split
    · exact (valueSlots (by simp)).append (h.drop (hwhole 1 (List.mem_singleton_self _)))
    · exact h
  | invoke => exact resultSlots.append ((hpops rfl).calledSlots inst _)
  | allocate => exact (singleton (by simp)).append h
  | checkCast => exact h
  | replace pops pushes => exact resultSlots.append (hpops rfl)
  | putStatic => exact resultSlots.append (hpops rfl)
  | putField => exact resultSlots.append (hpops rfl)
  | invokeDynamic => exact resultSlots.append (hpops rfl)
  | allocateArrays => exact resultSlots.append (hpops rfl)

namespace OperandStack.WellLaid

variable {stack after : OperandStack}

theorem empty (limit : Option Nat) : (empty limit).WellLaid :=
  ⟨.nil, fun _ hentry => absurd hentry List.not_mem_nil⟩

theorem withSlots (h : stack.WellLaid) {slots : List Slot} (hslots : LaidOut slots) :
    (stack.withSlots slots).WellLaid :=
  ⟨hslots, h.recorded⟩

theorem recordedAt? (h : stack.WellLaid) {offset : Nat} {recorded : List Slot}
    (hrecorded : stack.recordedAt? offset = some recorded) : LaidOut recorded := by
  obtain ⟨front, back, hentries, _⟩ := List.lookup_eq_some_iff.1 hrecorded
  exact h.recorded (offset, recorded) (by simp [hentries])

theorem setRecorded (h : stack.WellLaid) (target : Nat) {joined : List Slot}
    (hjoined : LaidOut joined) : (stack.setRecorded target joined).WellLaid := by
  refine ⟨h.slots, fun entry hentry => ?_⟩
  rcases List.mem_cons.1 hentry with rfl | hold
  · exact hjoined
  · exact h.recorded entry (List.mem_filter.1 hold).1

theorem dropRecorded (h : stack.WellLaid) (offset : Nat) : (stack.dropRecorded offset).WellLaid :=
  ⟨h.slots, fun entry hentry => h.recorded entry (List.mem_filter.1 hentry).1⟩

theorem joinSlots (h : stack.WellLaid) {target : Nat} {recorded joined : List Slot}
    (hjoin : joinSlots target stack.slots recorded = .ok joined) : LaidOut joined := by
  obtain ⟨_, rfl⟩ := joinSlots_ok hjoin
  exact h.slots.join recorded

theorem arriving (h : stack.WellLaid) {offset : Nat} {fallsThrough : Bool} {slots : List Slot}
    (harriving : stack.arriving offset fallsThrough = .ok slots) : LaidOut slots := by
  unfold OperandStack.arriving at harriving
  cases hrecorded : stack.recordedAt? offset with
  | some recorded =>
    rw [hrecorded] at harriving
    cases fallsThrough with
    | true => exact h.joinSlots harriving
    | false =>
      cases harriving
      exact h.recordedAt? hrecorded
  | none =>
    rw [hrecorded] at harriving
    cases fallsThrough with
    | true =>
      cases harriving
      exact h.slots
    | false =>
      cases harriving
      exact .nil

theorem noteJump (h : stack.WellLaid) {target : Nat}
    (hnote : noteJump target stack = .ok ⟨⟩ after) : after.WellLaid := by
  obtain ⟨joined, hjoined, rfl⟩ := noteJump_ok hnote
  refine h.setRecorded target ?_
  split at hjoined
  · rw [hjoined]
    exact h.slots
  · exact h.joinSlots hjoined

theorem enter (h : stack.WellLaid) {offset : Nat} {fallsThrough isHandler : Bool}
    (henter : enter offset fallsThrough isHandler stack = .ok ⟨⟩ after) : after.WellLaid := by
  rw [enter_eq] at henter
  split at henter
  · split at henter
    · cases henter
      exact (h.dropRecorded offset).withSlots (.singleton (by decide))
    · cases henter
  · split at henter
    · rename_i harriving
      cases henter
      exact (h.dropRecorded offset).withSlots (h.arriving harriving)
    · cases henter

theorem apply (h : stack.WellLaid) {inst : Instruction}
    (hwhole : ∀ size ∈ inst.groups, stack.slots[size]? ≠ some .continuation)
    (happly : inst.apply stack = .ok ⟨⟩ after) : after.WellLaid := by
  obtain ⟨effect, counts, heffect, hcounts, _, rfl⟩ := Instruction.apply_ok happly
  refine h.withSlots (h.slots.slotsAfter fun size hsize => hwhole size ?_)
  simpa only [Instruction.groups, Instruction.effect, heffect, hcounts] using hsize

/-- A call that tears nothing apart keeps every stack laid out, if it pushes
and puts no continuation of its own. -/
theorem run (h : stack.WellLaid) {call : StackCall} (hwhole : ¬ call.Cuts stack.slots)
    (hpushed : call.pushed? ≠ some .continuation)
    (hreplacing : call.replacing? ≠ some .continuation)
    (hrun : call.run stack = .ok ⟨⟩ after) : after.WellLaid := by
  have hbelow : ∀ size ∈ call.groups, stack.slots[size]? ≠ some .continuation :=
    fun size hsize hcut => hwhole ⟨size, hsize, hcut⟩
  cases call with
  | apply inst => exact h.apply hbelow hrun
  | pushValue slot slots =>
    rw [pushValue_ok hrun]
    have hvalue : slot ≠ .continuation := fun hslot => hpushed (congrArg some hslot)
    exact h.withSlots ((LaidOut.valueSlots hvalue).append h.slots)
  | pop count =>
    obtain ⟨popped, middle, hpop, hrest⟩ := bind_ok hrun
    cases hrest
    obtain ⟨_, _, rfl⟩ := pop_ok hpop
    exact h.withSlots (h.slots.drop (hbelow count (List.mem_singleton_self _)))
  | dup copy under =>
    obtain ⟨_, rfl⟩ := dup_ok hrun
    exact h.withSlots (h.slots.dup (hbelow _ (by simp [StackCall.groups])))
  | swap =>
    obtain ⟨_, rfl⟩ := swap_ok hrun
    exact h.withSlots (h.slots.exchanged (hbelow 1 (by simp [StackCall.groups]))
      (hbelow 2 (by simp [StackCall.groups])))
  | replaceObject offset slot =>
    cases (replaceObject_eq stack offset slot).symm.trans hrun
    exact h.withSlots (h.slots.replaced (fun hslot => hreplacing (congrArg some hslot)) offset)
  | forget =>
    cases (forget_eq stack).symm.trans hrun
    exact h.withSlots h.slots.forget
  | noteJump target => exact h.noteJump hrun
  | enter offset fallsThrough isHandler => exact h.enter hrun

end OperandStack.WellLaid

/-! ## Sequences of calls -/

namespace StackCall

theorem wellLaid_of_follow? {calls : List StackCall} {stack last : OperandStack}
    (h : stack.WellLaid) (hpushed : ∀ call ∈ calls, call.pushed? ≠ some .continuation)
    (hreplacing : ∀ call ∈ calls, call.replacing? ≠ some .continuation)
    (hfollow : follow? calls stack = some last) : last.WellLaid := by
  induction calls generalizing stack with
  | nil =>
    cases hfollow
    exact h
  | cons call rest ih =>
    obtain ⟨after, hstep, hrest⟩ := Option.bind_eq_some_iff.1 hfollow
    obtain ⟨hcall, hcalls⟩ := List.forall_mem_cons.1 hpushed
    obtain ⟨hcall', hcalls'⟩ := List.forall_mem_cons.1 hreplacing
    refine ih ?_ hcalls hcalls' hrest
    unfold step? at hstep
    split at hstep
    · cases hstep
    · rename_i hwhole
      split at hstep
      · rename_i hrun
        cases hstep
        exact h.run hwhole hcall hcall' hrun
      · cases hstep

end StackCall

/-- Wide values stay whole, whatever calls are made from the empty stack on, if
they succeed and tear nothing apart: the stack is laid out, and so is every
stack that a jump has recorded.  So the top of the stack is never the lower
half of a value. -/
theorem wellLaid_of_calls {limit : Option Nat} {calls : List StackCall} {stack : OperandStack}
    (hpushed : ∀ call ∈ calls, call.pushed? ≠ some .continuation)
    (hreplacing : ∀ call ∈ calls, call.replacing? ≠ some .continuation)
    (h : StackCall.follow? calls (.empty limit) = some stack) :
    stack.WellLaid ∧ stack.peek? 0 ≠ some .continuation := by
  have hlaid := StackCall.wellLaid_of_follow? (.empty limit) hpushed hreplacing h
  refine ⟨hlaid, ?_⟩
  unfold peek?
  rw [← List.head?_eq_getElem?]
  exact hlaid.slots.top

/-- Calls that meet a wide value and two narrow ones at offset 20, and then copy
a wide value below them. -/
def meetingCalls : List StackCall :=
  [ .pushValue (.constant (.long 7)) 2
  , .noteJump 20
  , .pop 2
  , .pushValue (.fresh 4) 1
  , .pushValue .unknown 1
  , .enter 20 true false
  , .apply ⟨20, 0x14, .constant (.long 8)⟩
  , .noteJump 30
  , .dup 2 2
  , .forget ]

/-- Where a wide value meets narrow ones, two slots are left of which nothing is
known. -/
theorem meetingCalls_wellLaid :
    (∀ call ∈ meetingCalls, call.pushed? ≠ some .continuation) ∧
      (∀ call ∈ meetingCalls, call.replacing? ≠ some .continuation) ∧
      ∃ stack, StackCall.follow? meetingCalls (.empty (some 6)) = some stack ∧
        stack.slots =
          [.unknown, .continuation, .unknown, .unknown, .unknown, .continuation] ∧
        stack.recorded =
          [(30, [.constant (.long 8), .continuation, .unknown, .unknown])] ∧
        stack.WellLaid ∧ stack.peek? 0 ≠ some .continuation := by
  have hpushed : ∀ call ∈ meetingCalls, call.pushed? ≠ some .continuation := by decide
  have hreplacing : ∀ call ∈ meetingCalls, call.replacing? ≠ some .continuation := by decide
  obtain ⟨stack, hfollow, hslots, hrecorded⟩ :
      ∃ stack, StackCall.follow? meetingCalls (.empty (some 6)) = some stack ∧
        stack.slots =
          [.unknown, .continuation, .unknown, .unknown, .unknown, .continuation] ∧
        stack.recorded =
          [(30, [.constant (.long 8), .continuation, .unknown, .unknown])] :=
    ⟨_, rfl, rfl, rfl⟩
  exact ⟨hpushed, hreplacing, stack, hfollow, hslots, hrecorded,
    wellLaid_of_calls hpushed hreplacing hfollow⟩

/-- An object is replaced by whatever slot is given, and so by a continuation as
well. -/
theorem continuation_on_top_of_replaceObject :
    (∀ call ∈ [StackCall.pushValue (.fresh 3) 1, .replaceObject 3 .continuation],
      call.pushed? ≠ some .continuation) ∧
    ∃ stack,
      StackCall.follow? [.pushValue (.fresh 3) 1, .replaceObject 3 .continuation] (.empty none) =
        some stack ∧
      ¬ stack.WellLaid ∧ stack.peek? 0 = some .continuation :=
  ⟨by decide, ⟨[.continuation], none, []⟩, rfl, fun h => h.slots.top rfl, rfl⟩

end BytecodeLint
