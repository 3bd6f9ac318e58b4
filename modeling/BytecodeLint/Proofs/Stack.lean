import BytecodeLint.OperandStack

/-!
# The operations of the operand stack as equations

Every operation is a program in `StackM`.  This module says what each of
them does to a given stack: which stack it leaves behind, or which fault
it ends with.  Later proofs use these equations and never open the
programs.

There are three groups.

* The steps of a program in `StackM` on a given stack.
* The operations on slots.  `OperandStack.Fits` says that the limit allows
  a depth, and it decides whether a push succeeds.
* Control flow.  `enter_eq` and `noteJump_eq` reduce the two operations to
  `arriving` and `joinSlots`, which are pure.
-/

namespace BytecodeLint

namespace StackM

/-! ## The steps of a program -/

variable {α β : Type} (stack : OperandStack)

@[simp] theorem pure_apply (value : α) :
    (pure value : StackM α) stack = .ok value stack := rfl

@[simp] theorem bind_apply (action : StackM α) (next : α → StackM β) :
    (action >>= next) stack = match action stack with
      | .ok value stack => next value stack
      | .error fault stack => .error fault stack := by
  show EStateM.bind action next stack = _
  unfold EStateM.bind
  cases action stack <;> rfl

@[simp] theorem get_apply : (get : StackM OperandStack) stack = .ok stack stack := rfl

@[simp] theorem set_apply (new : OperandStack) :
    (set new : StackM PUnit) stack = .ok ⟨⟩ new := rfl

@[simp] theorem throw_apply (fault : StackFault) :
    (throw fault : StackM α) stack = .error fault stack := rfl

@[simp] theorem ofExcept_ok (value : α) :
    (MonadExcept.ofExcept (.ok value : Except StackFault α) : StackM α) stack
      = .ok value stack := rfl

end StackM

/-! ## The operations on slots -/

theorem Slot.eq_fresh_of_allocation? {slot : Slot} {allocation : Nat}
    (h : slot.allocation? = some allocation) : slot = .fresh allocation := by
  cases slot with
  | fresh offset =>
    cases h
    rfl
  | _ => cases h

namespace OperandStack

/-- The limit of the stack allows the depth. -/
def Fits (stack : OperandStack) (depth : Nat) : Prop :=
  ∀ limit, stack.limit = some limit → depth ≤ limit

instance (stack : OperandStack) (depth : Nat) : Decidable (stack.Fits depth) :=
  match h : stack.limit with
  | none => .isTrue fun limit hlimit => by rw [h] at hlimit; cases hlimit
  | some limit => decidable_of_iff (depth ≤ limit) (by simp [Fits, h])

/-- The fault of a push for which there is no room. -/
def full (stack : OperandStack) : StackFault :=
  .overflow (stack.limit.getD 0)

/-- The stack with other slots. -/
def withSlots (stack : OperandStack) (slots : List Slot) : OperandStack :=
  { stack with slots }

variable (stack : OperandStack)

@[simp] theorem withSlots_slots (slots : List Slot) :
    (stack.withSlots slots).slots = slots := rfl

@[simp] theorem withSlots_limit (slots : List Slot) :
    (stack.withSlots slots).limit = stack.limit := rfl

@[simp] theorem withSlots_depth (slots : List Slot) :
    (stack.withSlots slots).depth = slots.length := rfl

@[simp] theorem withSlots_withSlots (first second : List Slot) :
    (stack.withSlots first).withSlots second = stack.withSlots second := rfl

@[simp] theorem withSlots_self : stack.withSlots stack.slots = stack := rfl

@[simp] theorem withSlots_full (slots : List Slot) :
    (stack.withSlots slots).full = stack.full := rfl

@[simp] theorem withSlots_fits (slots : List Slot) (depth : Nat) :
    (stack.withSlots slots).Fits depth ↔ stack.Fits depth := Iff.rfl

@[simp] theorem withSlots_recordedAt? (slots : List Slot) (offset : Nat) :
    (stack.withSlots slots).recordedAt? offset = stack.recordedAt? offset := rfl

/-- What fits leaves room for anything smaller. -/
theorem Fits.mono {stack : OperandStack} {depth smaller : Nat} (h : stack.Fits depth)
    (hle : smaller ≤ depth) : stack.Fits smaller :=
  fun limit hlimit => Nat.le_trans hle (h limit hlimit)

theorem setSlots_eq (slots : List Slot) :
    setSlots slots stack = .ok ⟨⟩ (stack.withSlots slots) := rfl

theorem requireDepth_eq (needed : Nat) :
    requireDepth needed stack =
      if stack.depth < needed then .error (.underflow needed stack.depth) stack
      else .ok ⟨⟩ stack := by
  simp only [requireDepth, StackM.bind_apply, StackM.get_apply]
  split <;> rfl

theorem requireRoom_eq (extra : Nat) :
    requireRoom extra stack =
      if stack.Fits (stack.depth + extra) then .ok ⟨⟩ stack
      else .error stack.full stack := by
  simp only [requireRoom, StackM.bind_apply, StackM.get_apply]
  obtain ⟨slots, limit, recorded⟩ := stack
  cases limit with
  | none => simp [Fits]
  | some limit =>
    by_cases hroom : limit < slots.length + extra
    · simp [Fits, full, depth, hroom, Nat.not_le.2 hroom]
    · simp [Fits, depth, hroom, Nat.not_lt.1 hroom]

theorem push_eq (slot : Slot) :
    push slot stack =
      if stack.Fits (stack.depth + 1) then .ok ⟨⟩ (stack.withSlots (slot :: stack.slots))
      else .error stack.full stack := by
  simp only [push, StackM.bind_apply, requireRoom_eq]
  by_cases hfits : stack.Fits (stack.depth + 1)
  · rw [if_pos hfits, if_pos hfits]
    rfl
  · rw [if_neg hfits, if_neg hfits]

/-- The slots that a value of the given width takes, from the top. -/
def valueSlots (slot : Slot) (width : Nat) : List Slot :=
  if width = 2 then [slot, .continuation] else [slot]

/-- The lower half of a wide value is pushed before it turns out that
there is no room for the upper half. -/
theorem pushValue_eq (slot : Slot) (width : Nat) :
    pushValue slot width stack =
      if stack.Fits (stack.depth + (valueSlots slot width).length) then
        .ok ⟨⟩ (stack.withSlots (valueSlots slot width ++ stack.slots))
      else if width = 2 ∧ stack.Fits (stack.depth + 1) then
        .error stack.full (stack.withSlots (.continuation :: stack.slots))
      else
        .error stack.full stack := by
  by_cases hwide : width = 2
  · simp only [pushValue, hwide, valueSlots, if_true, StackM.bind_apply, push_eq]
    by_cases hone : stack.Fits (stack.depth + 1)
    · have hlower : (stack.slots.length + 1) = stack.depth + 1 := rfl
      simp [hone, hlower]
    · have htwo : ¬ stack.Fits (stack.depth + 2) := fun h => hone (h.mono (by omega))
      simp [hone, htwo]
  · simp [pushValue, hwide, valueSlots, push_eq]

theorem pop_eq (count : Nat) :
    pop count stack =
      if stack.depth < count then .error (.underflow count stack.depth) stack
      else .ok (stack.slots.take count) (stack.withSlots (stack.slots.drop count)) := by
  simp only [pop, StackM.bind_apply, requireDepth_eq]
  by_cases hdepth : stack.depth < count
  · rw [if_pos hdepth, if_pos hdepth]
  · rw [if_neg hdepth, if_neg hdepth]
    rfl

theorem dup_eq (copy under : Nat) :
    dup copy under stack =
      if stack.depth < copy + under then .error (.underflow (copy + under) stack.depth) stack
      else if stack.Fits (stack.depth + copy) then
        .ok ⟨⟩ (stack.withSlots (stack.slots.take (copy + under) ++ stack.slots.take copy
          ++ stack.slots.drop (copy + under)))
      else .error stack.full stack := by
  simp only [dup, StackM.bind_apply, requireDepth_eq]
  by_cases hdepth : stack.depth < copy + under
  · rw [if_pos hdepth, if_pos hdepth]
  · rw [if_neg hdepth, if_neg hdepth]
    simp only [requireRoom_eq]
    by_cases hfits : stack.Fits (stack.depth + copy)
    · rw [if_pos hfits, if_pos hfits]
      rfl
    · rw [if_neg hfits, if_neg hfits]

/-- The slots with the top two exchanged. -/
def exchanged {α : Type} : List α → List α
  | first :: second :: rest => second :: first :: rest
  | slots => slots

theorem swap_eq :
    swap stack =
      if stack.depth < 2 then .error (.underflow 2 stack.depth) stack
      else .ok ⟨⟩ (stack.withSlots (exchanged stack.slots)) := by
  simp only [swap, StackM.bind_apply, requireDepth_eq]
  by_cases hdepth : stack.depth < 2
  · rw [if_pos hdepth, if_pos hdepth]
  · rw [if_neg hdepth, if_neg hdepth]
    obtain ⟨slots, limit, recorded⟩ := stack
    match slots, hdepth with
    | first :: second :: rest, _ => rfl
    | [_], hdepth => exact absurd Nat.one_lt_two hdepth
    | [], hdepth => exact absurd Nat.two_pos hdepth

/-- The slot after a constructor was called on the object allocated at
`offset`. -/
def replaced (offset : Nat) (slot old : Slot) : Slot :=
  if old.allocation? = some offset then slot else old

theorem replaceObject_eq (offset : Nat) (slot : Slot) :
    replaceObject offset slot stack =
      .ok ⟨⟩ (stack.withSlots (stack.slots.map (replaced offset slot))) := rfl

theorem forget_eq : forget stack = .ok ⟨⟩ (stack.withSlots (stack.slots.map Slot.forget)) := rfl

/-! ## Control flow -/

@[simp] theorem recordedAt?_setRecorded_self (offset : Nat) (slots : List Slot) :
    (stack.setRecorded offset slots).recordedAt? offset = some slots := by
  simp [recordedAt?, setRecorded]

private theorem lookup_filter_ne {α : Type} (entries : List (Nat × α)) {offset other : Nat}
    (hne : other ≠ offset) :
    (entries.filter (·.1 != offset)).lookup other = entries.lookup other := by
  induction entries with
  | nil => rfl
  | cons entry rest ih =>
    obtain ⟨key, value⟩ := entry
    by_cases hkey : key = offset
    · have hother : (other == key) = false := by simpa [hkey] using hne
      simp [hkey, List.lookup_cons, ih, hkey ▸ hother]
    · simp [hkey, List.lookup_cons, ih]

theorem recordedAt?_setRecorded_ne {offset other : Nat} (slots : List Slot)
    (hne : other ≠ offset) :
    (stack.setRecorded offset slots).recordedAt? other = stack.recordedAt? other := by
  have hbeq : (other == offset) = false := by simpa using hne
  simp [recordedAt?, setRecorded, List.lookup_cons, hbeq, lookup_filter_ne _ hne]

theorem recordedAt?_dropRecorded_self (offset : Nat) :
    (stack.dropRecorded offset).recordedAt? offset = none := by
  refine List.lookup_eq_none_iff.2 fun entry hentry => ?_
  have hother := (List.mem_filter.1 hentry).2
  rwa [bne_comm] at hother

theorem recordedAt?_dropRecorded_ne {offset other : Nat} (hne : other ≠ offset) :
    (stack.dropRecorded offset).recordedAt? other = stack.recordedAt? other :=
  lookup_filter_ne _ hne

/-- The slots that meet at an offset that is no handler. -/
def arriving (offset : Nat) (fallsThrough : Bool) : Except StackFault (List Slot) :=
  match stack.recordedAt? offset, fallsThrough with
  | some recorded, true => joinSlots offset stack.slots recorded
  | some recorded, false => .ok recorded
  | none, true => .ok stack.slots
  | none, false => .ok []

/-- A handler can overflow too, if the limit is zero. -/
theorem enter_eq (offset : Nat) (fallsThrough isHandler : Bool) :
    enter offset fallsThrough isHandler stack =
      if isHandler then
        if stack.Fits 1 then .ok ⟨⟩ ((stack.dropRecorded offset).withSlots [.unknown])
        else .error stack.full ((stack.dropRecorded offset).withSlots [])
      else match stack.arriving offset fallsThrough with
        | .ok slots => .ok ⟨⟩ ((stack.dropRecorded offset).withSlots slots)
        | .error fault => .error fault (stack.dropRecorded offset) := by
  cases isHandler with
  | true =>
    simp only [enter, StackM.bind_apply, StackM.get_apply, StackM.set_apply, if_true,
      setSlots_eq, push_eq]
    rfl
  | false =>
    simp only [enter, StackM.bind_apply, StackM.get_apply, StackM.set_apply, arriving,
      Bool.false_eq_true, if_false]
    cases stack.recordedAt? offset with
    | none => cases fallsThrough <;> rfl
    | some recorded =>
      cases fallsThrough with
      | false => rfl
      | true =>
        simp only [StackM.bind_apply]
        have hslots : (stack.dropRecorded offset).slots = stack.slots := rfl
        cases joinSlots offset stack.slots recorded <;> rfl

theorem noteJump_eq (target : Nat) :
    noteJump target stack = match stack.recordedAt? target with
      | none => .ok ⟨⟩ (stack.setRecorded target stack.slots)
      | some recorded => match joinSlots target stack.slots recorded with
        | .ok joined => .ok ⟨⟩ (stack.setRecorded target joined)
        | .error fault => .error fault stack := by
  simp only [noteJump, StackM.bind_apply, StackM.get_apply]
  cases stack.recordedAt? target with
  | none => rfl
  | some recorded =>
    simp only [StackM.bind_apply]
    cases joinSlots target stack.slots recorded <;> rfl

end OperandStack

end BytecodeLint
