import BytecodeLint.Proofs.Discard
import BytecodeLint.Proofs.Operands
import BytecodeLint.Proofs.Sequence
import BytecodeLint.Proofs.Isolation

/-!
# Discarded objects in code without jumps

Source code without branches is a list of statements, and each statement
evaluates an expression.  Constructor calls are nested in it to any depth.  The
detector follows only one object at a time, so an inner construction makes it
forget the outer one.  This does no harm: the outer object is followed again
from its own constructor call on, and that comes last.

There are seven groups.

* `Expression` and `Statement`, and the code they are compiled to.
* When they are well-formed, and the room that they need.  Both can be computed.
* The constructor call of a statement that drops what it constructed, and its
  finding.
* No instruction of a statement jumps.
* What the detector makes of single instructions.
* `leaves_expression`: an expression leaves its value, whatever stands below it.
* `passes_statements`: statements give their findings one after another.

`BytecodeLint.Proofs.Exactness` draws the conclusion for methods and classes.
-/

namespace BytecodeLint

open OperandStack

/-! ## Expressions and statements -/

mutual

/-- An expression, with the offsets of its instructions. -/
inductive Expression
  /-- A load of a constant or of a local variable. -/
  | load (inst : Instruction) (width : Nat)
  /-- The receiver of a virtual call is its first argument. -/
  | call (arguments : Arguments) (offset : Nat) (site : CallSite)
  | construct (new dup : Nat) (className : String) (arguments : Arguments) (init : Nat)
      (descriptor : String)

inductive Arguments
  | none
  | cons (first : Expression) (rest : Arguments)

end

inductive Statement
  /-- The value is dropped by a `pop`. -/
  | discard (value : Expression) (pop : Nat)
  /-- The value is stored in a local variable. -/
  | store (value : Expression) (inst : Instruction)
  /-- A call without a result. -/
  | call (arguments : Arguments) (offset : Nat) (site : CallSite)

def CallSite.instruction (site : CallSite) (offset : Nat) : Instruction :=
  ⟨offset, Bytecode.callOpcode site.kind, .call site⟩

mutual

def Expression.code : Expression → List Instruction
  | .load inst _ => [inst]
  | .call arguments offset site => arguments.code ++ [site.instruction offset]
  | .construct new dup className arguments init descriptor =>
    ⟨new, .new, .type className⟩ :: ⟨dup, 0x59, .none⟩ :: (arguments.code ++
      [CallSite.instruction ⟨.special, className, "<init>", descriptor⟩ init])

def Arguments.code : Arguments → List Instruction
  | .none => []
  | .cons first rest => first.code ++ rest.code

end

def Statement.code : Statement → List Instruction
  | .discard value pop => value.code ++ [⟨pop, .pop, .none⟩]
  | .store value inst => value.code ++ [inst]
  | .call arguments offset site => arguments.code ++ [site.instruction offset]

/-! ## Width, room and well-formedness -/

/-- The slots of the value. -/
def Expression.width : Expression → Nat
  | .load _ width => width
  | .call .. | .construct .. => 1

def Arguments.width : Arguments → Nat
  | .none => 0
  | .cons first rest => first.width + rest.width

mutual

/-- The most slots that are on the stack at once, besides those that were there
before. -/
def Expression.room : Expression → Nat
  | .load _ width => width
  | .call arguments _ _ => max arguments.room 1
  | .construct _ _ _ arguments _ _ => 2 + arguments.room

def Arguments.room : Arguments → Nat
  | .none => 0
  | .cons first rest => max first.room (first.width + rest.room)

end

def Statement.room : Statement → Nat
  | .discard value _ | .store value _ => value.room
  | .call arguments _ _ => arguments.room

theorem Expression.width_le_room (expression : Expression) :
    expression.width ≤ expression.room := by
  cases expression with
  | load inst width => exact Nat.le_refl width
  | call arguments offset site => exact Nat.le_max_right ..
  | construct new dup className arguments init descriptor =>
    exact Nat.le_trans (Nat.le_succ 1) (Nat.le_add_right ..)

theorem Arguments.width_le_room : (arguments : Arguments) → arguments.width ≤ arguments.room
  | .none => Nat.le_refl 0
  | .cons first rest => by
    have hrest := rest.width_le_room
    rw [Arguments.width, Arguments.room]
    omega

/-- The call takes the arguments and leaves a result of the given width.  A
virtual call has a receiver below the arguments that its descriptor names. -/
def CallSite.Takes (site : CallSite) (arguments : Arguments) (result : Nat) : Prop :=
  match site.kind, arguments with
  | .static, arguments => callSlots site.descriptor = .ok ⟨arguments.width, result⟩
  | .virtual, .cons receiver arguments =>
    receiver.width = 1 ∧ callSlots site.descriptor = .ok ⟨arguments.width, result⟩
  | _, _ => False

/-- The stores of a reference. -/
def storeOpcodes : List Opcode :=
  [0x3a, 0x4b, 0x4c, 0x4d, 0x4e]

mutual

def Expression.WellFormed : Expression → Prop
  | .load inst width => inst.targets = [] ∧
    (inst.opcode.effect? = some (.pushConstant width) ∨
      inst.opcode.effect? = some (.loadLocal width))
  | .call arguments _ site => arguments.WellFormed ∧ site.Takes arguments 1
  | .construct _ _ _ arguments _ descriptor =>
    arguments.WellFormed ∧ callSlots descriptor = .ok ⟨arguments.width, 0⟩

def Arguments.WellFormed : Arguments → Prop
  | .none => True
  | .cons first rest => first.WellFormed ∧ rest.WellFormed

end

def Statement.WellFormed : Statement → Prop
  | .discard value _ => value.WellFormed ∧ value.width = 1
  | .store value inst =>
    value.WellFormed ∧ value.width = 1 ∧ inst.opcode ∈ storeOpcodes ∧ inst.targets = []
  | .call arguments _ site => arguments.WellFormed ∧ site.Takes arguments 0

instance CallSite.decidableTakes (site : CallSite) (arguments : Arguments) (result : Nat) :
    Decidable (site.Takes arguments result) :=
  match site, arguments with
  | ⟨.static, _, _, descriptor⟩, arguments =>
    inferInstanceAs (Decidable (callSlots descriptor = .ok ⟨arguments.width, result⟩))
  | ⟨.virtual, _, _, _⟩, .cons .. => inferInstanceAs (Decidable (_ ∧ _))
  | ⟨.virtual, _, _, _⟩, .none | ⟨.special, _, _, _⟩, _ | ⟨.interface, _, _, _⟩, _ => isFalse id

mutual

instance Expression.decidableWellFormed :
    (expression : Expression) → Decidable expression.WellFormed
  | .load .. => inferInstanceAs (Decidable (_ ∧ (_ ∨ _)))
  | .call arguments _ _ =>
    have := arguments.decidableWellFormed
    inferInstanceAs (Decidable (_ ∧ _))
  | .construct _ _ _ arguments _ _ =>
    have := arguments.decidableWellFormed
    inferInstanceAs (Decidable (_ ∧ _))

instance Arguments.decidableWellFormed :
    (arguments : Arguments) → Decidable arguments.WellFormed
  | .none => isTrue trivial
  | .cons first rest =>
    have := first.decidableWellFormed
    have := rest.decidableWellFormed
    inferInstanceAs (Decidable (_ ∧ _))

end

instance (statement : Statement) : Decidable statement.WellFormed :=
  match statement with
  | .discard .. => inferInstanceAs (Decidable (_ ∧ _))
  | .store .. => inferInstanceAs (Decidable (_ ∧ _ ∧ _ ∧ _))
  | .call .. => inferInstanceAs (Decidable (_ ∧ _))

/-! ## Dropped objects -/

/-- The constructor call of the expression itself, not of one that is nested in
it. -/
def Expression.constructed? : Expression → Option Nat
  | .construct _ _ _ _ init _ => some init
  | _ => none

/-- The constructor call whose object is dropped. -/
def Statement.discarded? : Statement → Option Nat
  | .discard value _ => value.constructed?
  | _ => none

/-- A statement that drops an object allocates it and calls its constructor. -/
theorem Statement.mem_code_of_discarded {statement : Statement} {init : Nat}
    (h : statement.discarded? = some init) :
    (∃ new ∈ statement.code, new.opcode = .new) ∧
      ∃ call ∈ statement.code, call.opcode = .invokespecial ∧ call.offset = init := by
  cases statement with
  | store | call => cases h
  | discard value pop =>
    cases value with
    | load | call => cases h
    | construct new dup className arguments init descriptor =>
      cases h
      refine ⟨⟨⟨new, .new, .type className⟩, ?_, rfl⟩,
        CallSite.instruction ⟨.special, className, "<init>", descriptor⟩ init, ?_, rfl, rfl⟩
      · simp [Statement.code, Expression.code]
      · simp [Statement.code, Expression.code]

/-- The finding that a statement gives. -/
def Statement.report? (cls : Class) (method : Method) (statement : Statement) : Option Finding :=
  statement.discarded?.map fun init =>
    DiscardedObject.discarded.report (cls.locate method init) none

/-! ## No jumps -/

mutual

theorem Expression.targets_code : (expression : Expression) → expression.WellFormed →
    ∀ inst ∈ expression.code, inst.targets = []
  | .load .., ⟨htargets, _⟩ => List.forall_mem_singleton.2 htargets
  | .call arguments .., ⟨hformed, _⟩ =>
    List.forall_mem_append.2 ⟨arguments.targets_code hformed, List.forall_mem_singleton.2 rfl⟩
  | .construct _ _ _ arguments .., ⟨hformed, _⟩ => by
    refine List.forall_mem_cons.2 ⟨rfl, List.forall_mem_cons.2 ⟨rfl, ?_⟩⟩
    exact List.forall_mem_append.2 ⟨arguments.targets_code hformed, List.forall_mem_singleton.2 rfl⟩

theorem Arguments.targets_code : (arguments : Arguments) → arguments.WellFormed →
    ∀ inst ∈ arguments.code, inst.targets = []
  | .none, _ => fun _ hinst => absurd hinst List.not_mem_nil
  | .cons first rest, ⟨hfirst, hrest⟩ =>
    List.forall_mem_append.2 ⟨first.targets_code hfirst, rest.targets_code hrest⟩

end

theorem Statement.targets_code {statement : Statement} (h : statement.WellFormed) :
    ∀ inst ∈ statement.code, inst.targets = [] := by
  cases statement with
  | discard value pop =>
    exact List.forall_mem_append.2 ⟨value.targets_code h.1, List.forall_mem_singleton.2 rfl⟩
  | store value inst =>
    exact List.forall_mem_append.2 ⟨value.targets_code h.1, List.forall_mem_singleton.2 h.2.2.2⟩
  | call arguments offset site =>
    exact List.forall_mem_append.2 ⟨arguments.targets_code h.1, List.forall_mem_singleton.2 rfl⟩

/-! ## Single instructions -/

/-- The effect is that of a load. -/
def Effect.isLoad : Effect → Bool
  | pushConstant _ | loadLocal _ => true
  | _ => false

namespace DiscardedObject

variable {cls : Class} {method : Method} {inst : Instruction} {slots : List Slot}
  {effect : Effect} {counts : StackEffect} {pending : Option Survivor}

/-- What is still followed of a survivor when the stack was cut down to some
depth. -/
def kept (depth : Nat) (pending : Option Survivor) : Option Survivor :=
  pending.filter (·.depth ≤ depth)

/-- The survivor lies within the given depth of the stack. -/
def Within (depth : Nat) (pending : Option Survivor) : Prop :=
  ∀ survivor, pending = some survivor → 0 < survivor.depth ∧ survivor.depth ≤ depth

theorem Within.mono {depth deeper : Nat} (h : Within depth pending) (hle : depth ≤ deeper) :
    Within deeper pending :=
  fun survivor hpending => ⟨(h survivor hpending).1, Nat.le_trans (h survivor hpending).2 hle⟩

theorem Within.eq_none (h : Within 0 pending) : pending = none := by
  cases pending with
  | none => rfl
  | some survivor =>
    obtain ⟨hpos, hle⟩ := h survivor rfl
    omega

theorem Within.kept_eq {depth : Nat} (h : Within depth pending) : kept depth pending = pending := by
  cases pending with
  | none => rfl
  | some survivor => simp [kept, Option.filter, (h survivor rfl).2]

theorem Within.kept {depth : Nat} (h : Within depth pending) (less : Nat) :
    Within less (kept less pending) := by
  intro survivor hkept
  obtain ⟨hpending, hle⟩ := Option.filter_eq_some_iff.1 hkept
  exact ⟨(h survivor hpending).1, of_decide_eq_true hle⟩

theorem Within.kept_zero {depth : Nat} (h : Within depth pending) :
    DiscardedObject.kept 0 pending = none :=
  (h.kept 0).eq_none

/-- The opcode neither drops an object, nor leaves the method, nor calls a
constructor. -/
def isPlain (op : Opcode) : Bool :=
  op.fallsThrough && op != .pop && op != .invokespecial

theorem isPlain_of_load : ∀ op : Opcode, ∀ effect ∈ op.effect?, effect.isLoad = true →
    isPlain op = true :=
  Opcode.forall_of_byte (by decide +kernel)

theorem visit_plain {step : Step} (h : isPlain step.opcode = true) (pending : Option Survivor) :
    visit step pending = .ok [] (kept (step.depth - step.effect.pops) pending) := by
  simp only [isPlain, Bool.and_eq_true, bne_iff_ne] at h
  obtain ⟨⟨hfalls, hpop⟩, hspecial⟩ := h
  have hreturn : step.opcode ≠ .voidReturn := by
    intro heq
    rw [heq] at hfalls
    cases hfalls
  have hremains : remainsAt step = .ok none := by
    unfold remainsAt constructorCall?
    rw [if_neg (by simpa using hspecial)]
  rw [visit_eq, hremains]
  cases pending with
  | none => rfl
  | some survivor =>
    have hdrops : ((step.opcode == .pop || step.opcode == .voidReturn) &&
        step.depth == survivor.depth) = false := by
      simp [hpop, hreturn]
    unfold settle fate kept
    simp only [hdrops, Bool.false_eq_true, if_false]
    by_cases hdeep : step.depth - step.effect.pops < survivor.depth
    · have hfar : ¬ survivor.depth ≤ step.depth - step.effect.pops := Nat.not_le.2 hdeep
      simp [hdeep, hfar, Option.filter]
    · have hnear : survivor.depth ≤ step.depth - step.effect.pops := Nat.not_lt.1 hdeep
      simp [hdeep, hnear, Option.filter]

/-- A plain instruction finds nothing, and the object is still followed if its
slot is not taken. -/
theorem passes_plain (hmethod : method.Sequential) (hplain : isPlain inst.opcode = true)
    (htargets : inst.targets = []) (h : method.Executes inst slots effect counts) :
    detector.Passes cls method [inst] ⟨slots, pending⟩ []
      ⟨inst.slotsAfter counts slots effect, kept (slots.length - counts.pops) pending⟩ := by
  have hfalls : inst.fallsThrough = true := by
    simp only [isPlain, Bool.and_eq_true] at hplain
    exact hplain.1.1
  have hvisit := @visit_plain ⟨⟨inst, slots, counts⟩, cls, method⟩ hplain pending
  exact Detector.Passes.single hmethod htargets hfalls h hvisit

/-- A plain instruction that takes nothing keeps what is followed. -/
theorem passes_push {pushes : Nat} (hmethod : method.Sequential)
    (hplain : isPlain inst.opcode = true) (htargets : inst.targets = [])
    (heffect : inst.opcode.effect? = some effect)
    (hcounts : inst.countSlots effect = .ok ⟨0, pushes⟩)
    (hwithin : Within slots.length pending) (hroom : method.Allows (slots.length + pushes)) :
    detector.Passes cls method [inst] ⟨slots, pending⟩ []
      ⟨inst.slotsAfter ⟨0, pushes⟩ slots effect, pending⟩ := by
  have hexecutes : method.Executes inst slots effect ⟨0, pushes⟩ :=
    ⟨heffect, hcounts, Nat.zero_le _, hroom.mono (Nat.le_add_right ..), hroom⟩
  have hpasses : detector.Passes cls method [inst] ⟨slots, pending⟩ []
      ⟨inst.slotsAfter ⟨0, pushes⟩ slots effect, kept slots.length pending⟩ :=
    passes_plain hmethod hplain htargets hexecutes
  rwa [hwithin.kept_eq] at hpasses

theorem exists_passes_load {width : Nat} (hmethod : method.Sequential)
    (htargets : inst.targets = [])
    (hload : inst.opcode.effect? = some (.pushConstant width) ∨
      inst.opcode.effect? = some (.loadLocal width))
    (hwithin : Within slots.length pending) (hroom : method.Allows (slots.length + width)) :
    ∃ values, detector.Passes cls method [inst] ⟨slots, pending⟩ []
        ⟨values ++ slots, pending⟩ ∧ values.length = width ∧ Unallocated values := by
  rcases hload with heffect | heffect
  · have hwidth : width = 1 ∨ width = 2 := Opcode.regular_of_effect? heffect
    have hplain : isPlain inst.opcode = true := isPlain_of_load inst.opcode _ heffect rfl
    exact ⟨valueSlots (.constant inst.literal) width,
      passes_push hmethod hplain htargets heffect rfl hwithin hroom,
      length_valueSlots _ hwidth, unallocated_valueSlots rfl width⟩
  · have hwidth : width = 1 ∨ width = 2 := Opcode.regular_of_effect? heffect
    have hplain : isPlain inst.opcode = true := isPlain_of_load inst.opcode _ heffect rfl
    exact ⟨valueSlots inst.loaded width,
      passes_push hmethod hplain htargets heffect rfl hwithin hroom,
      length_valueSlots _ hwidth, unallocated_valueSlots inst.allocation?_loaded width⟩

/-- What a call takes and puts.  It is plain, and it constructs nothing. -/
theorem counts_of_takes {site : CallSite} {arguments : Arguments} {result : Nat}
    (h : site.Takes arguments result) (offset : Nat) :
    (site.instruction offset).countSlots .invoke = .ok ⟨arguments.width, result⟩ ∧
      (site.instruction offset).isConstructorCall = false ∧
      (site.instruction offset).opcode.effect? = some .invoke ∧
      isPlain (site.instruction offset).opcode = true := by
  obtain ⟨kind, owner, name, descriptor⟩ := site
  cases kind with
  | static =>
    have hcount : callSlots descriptor = .ok ⟨arguments.width, result⟩ := h
    refine ⟨?_, rfl, (by decide : Opcode.invokestatic.effect? = some .invoke), rfl⟩
    show Instruction.callEffect descriptor 0 = _
    simp only [Instruction.callEffect, hcount, Nat.add_zero]
  | virtual =>
    cases arguments with
    | none => cases h
    | cons receiver others =>
      obtain ⟨hreceiver, hcount⟩ : receiver.width = 1 ∧
        callSlots descriptor = .ok ⟨others.width, result⟩ := h
      refine ⟨?_, rfl, (by decide : Opcode.invokevirtual.effect? = some .invoke), rfl⟩
      show Instruction.callEffect descriptor 1 = _
      simp only [Instruction.callEffect, hcount, Arguments.width, hreceiver, Nat.add_comm]
  | special => cases h
  | interface => cases h

/-- A call of a method takes its arguments, and with them every survivor above
the slots that it leaves. -/
theorem passes_call {site : CallSite} {arguments : Arguments} {result offset : Nat}
    {values : List Slot} (hmethod : method.Sequential) (htakes : site.Takes arguments result)
    (hvalues : values.length = arguments.width)
    (hroom : method.Allows (slots.length + arguments.width))
    (hroomAfter : method.Allows (slots.length + result)) :
    detector.Passes cls method [site.instruction offset] ⟨values ++ slots, pending⟩ []
      ⟨resultSlots result ++ slots, kept slots.length pending⟩ := by
  obtain ⟨hcounts, hconstructor, heffect, hplain⟩ := counts_of_takes htakes offset
  have hlength : (values ++ slots).length = slots.length + arguments.width := by
    rw [List.length_append, hvalues, Nat.add_comm]
  have hrest : (values ++ slots).length - arguments.width = slots.length := by omega
  have hexecutes : method.Executes (site.instruction offset) (values ++ slots) .invoke
      ⟨arguments.width, result⟩ := by
    refine ⟨heffect, hcounts, ?_, ?_, ?_⟩
    · exact hlength ▸ Nat.le_add_left ..
    · rwa [hlength]
    · show method.Allows ((values ++ slots).length - arguments.width + result)
      rwa [hrest]
  have hafter : (site.instruction offset).slotsAfter ⟨arguments.width, result⟩ (values ++ slots)
      .invoke = resultSlots result ++ slots := by
    simp only [Instruction.slotsAfter, Instruction.calledSlots, hconstructor,
      Bool.false_eq_true, if_false]
    rw [List.drop_left' hvalues]
  have htargets : (site.instruction offset).targets = [] := rfl
  have hpasses : detector.Passes cls method [site.instruction offset] ⟨values ++ slots, pending⟩ []
      ⟨(site.instruction offset).slotsAfter ⟨arguments.width, result⟩ (values ++ slots) .invoke,
        kept ((values ++ slots).length - arguments.width) pending⟩ :=
    passes_plain hmethod hplain htargets hexecutes
  rwa [hafter, hrest] at hpasses

/-- An object is allocated, and it is on the stack twice. -/
theorem passes_allocate {new dup : Nat} {className : String} (hmethod : method.Sequential)
    (hwithin : Within slots.length pending) (hroom : method.Allows (slots.length + 2)) :
    detector.Passes cls method [⟨new, .new, .type className⟩, ⟨dup, 0x59, .none⟩]
      ⟨slots, pending⟩ [] ⟨.fresh new :: .fresh new :: slots, pending⟩ := by
  have hallocate : Opcode.new.effect? = some .allocate := by decide
  have hcopy : Opcode.effect? 0x59 = some (.dup 1 0) := by decide
  have hplainNew : isPlain .new = true := by decide
  have hplainDup : isPlain 0x59 = true := by decide
  have hroomOnce : method.Allows (slots.length + 1) := hroom.mono (Nat.le_succ _)
  have hnew : detector.Passes cls method [⟨new, .new, .type className⟩] ⟨slots, pending⟩ []
      ⟨.fresh new :: slots, pending⟩ :=
    @passes_push cls method ⟨new, .new, .type className⟩ _ _ _ _ hmethod hplainNew rfl hallocate
      rfl hwithin hroomOnce
  have hexecutes : method.Executes ⟨dup, 0x59, .none⟩ (.fresh new :: slots) (.dup 1 0) ⟨1, 2⟩ :=
    ⟨hcopy, rfl, Nat.le_add_left .., hroomOnce, hroom⟩
  have hdup : detector.Passes cls method [⟨dup, 0x59, .none⟩] ⟨.fresh new :: slots, pending⟩ []
      ⟨.fresh new :: .fresh new :: slots, kept slots.length pending⟩ :=
    @passes_plain cls method ⟨dup, 0x59, .none⟩ _ _ _ _ hmethod hplainDup rfl hexecutes
  rw [hwithin.kept_eq] at hdup
  exact hnew.append hdup

theorem settle_eq_nil {step : Step} (hpop : step.opcode ≠ .pop)
    (hreturn : step.opcode ≠ .voidReturn) (pending : Option Survivor) :
    (settle step pending).2 = [] := by
  refine List.eq_nil_iff_forall_not_mem.2 fun finding hmem => ?_
  obtain ⟨survivor, _, hfate, _⟩ := mem_settle hmem
  exact (discarded_of_fate hfate).1.elim hpop hreturn

/-- A constructor call that leaves a copy of its object reports nothing.  The
copy is followed, and nothing that was followed before it. -/
theorem visit_construct {step : Step} {site : CallSite} {params allocation : Nat}
    (hopcode : step.opcode = .invokespecial) (hcall : step.instruction.call? = some site)
    (hname : site.name = "<init>") (hparams : callSlots site.descriptor = .ok ⟨params, 0⟩)
    (hobject : step.slots[params]? = some (.fresh allocation))
    (hcopy : step.slots[params + 1]? = some (.fresh allocation)) (pending : Option Survivor) :
    visit step pending = .ok [] (some ⟨step.offset, step.depth - params - 1⟩) := by
  have hconstructs : constructorCall? step = some site.descriptor := by
    unfold constructorCall?
    rw [hopcode, hcall]
    simp [hname]
  have hremains : remainsAt step = .ok (some (.copy ⟨step.offset, step.depth - params - 1⟩)) := by
    unfold remainsAt
    rw [hconstructs]
    simp only [hparams]
    simp [remains?, Step.peek?, hobject, hcopy, Slot.allocation?]
  have hnothing : (settle step pending).2 = [] :=
    settle_eq_nil (by rw [hopcode]; decide) (by rw [hopcode]; decide) pending
  rw [visit_eq, hremains]
  simp only [hnothing]

/-- The call of a constructor uses up the other copy of its object. -/
theorem calledSlots_construct {values : List Slot} {new : Nat}
    (hconstructs : inst.isConstructorCall = true)
    (hothers : ∀ slot ∈ slots, slot.allocation? ≠ some new) :
    inst.calledSlots (values ++ [.fresh new]) (.fresh new :: slots) = .unknown :: slots := by
  have hkept : slots.map (replaced new .unknown) = slots :=
    (List.map_congr_left fun slot hslot => if_neg (hothers slot hslot)).trans (List.map_id' slots)
  have hfirst : replaced new .unknown (.fresh new) = .unknown := if_pos rfl
  unfold Instruction.calledSlots
  rw [if_pos hconstructs, List.getLast?_concat]
  show (.fresh new :: slots).map (replaced new .unknown) = .unknown :: slots
  rw [List.map_cons, hkept, hfirst]

/-- A constructor call takes its arguments and one of the two copies.  The other
one is followed from there on. -/
theorem passes_construct {new init : Nat} {className descriptor : String}
    {arguments : Arguments} {values : List Slot} (hmethod : method.Sequential)
    (hdescriptor : callSlots descriptor = .ok ⟨arguments.width, 0⟩)
    (hvalues : values.length = arguments.width)
    (hothers : ∀ slot ∈ slots, slot.allocation? ≠ some new)
    (hroom : method.Allows (slots.length + 2 + arguments.width)) :
    detector.Passes cls method
      [CallSite.instruction ⟨.special, className, "<init>", descriptor⟩ init]
      ⟨values ++ .fresh new :: .fresh new :: slots, pending⟩ []
      ⟨.unknown :: slots, some ⟨init, slots.length + 1⟩⟩ := by
  let site : CallSite := ⟨.special, className, "<init>", descriptor⟩
  -- The call takes what stands above the second copy.
  have hsplit : values ++ .fresh new :: .fresh new :: slots =
      (values ++ [.fresh new]) ++ .fresh new :: slots := by simp
  have htaken : (values ++ [Slot.fresh new]).length = arguments.width + 1 := by simp [hvalues]
  have hlength : (values ++ .fresh new :: .fresh new :: slots).length =
      slots.length + 2 + arguments.width := by
    simp only [List.length_append, List.length_cons, hvalues]
    omega
  have hcounts : (site.instruction init).countSlots .invoke = .ok ⟨arguments.width + 1, 0⟩ := by
    show Instruction.callEffect descriptor 1 = _
    simp only [Instruction.callEffect, hdescriptor]
  have heffect : (site.instruction init).opcode.effect? = some .invoke :=
    (by decide : Opcode.invokespecial.effect? = some .invoke)
  have hexecutes : method.Executes (site.instruction init)
      (values ++ .fresh new :: .fresh new :: slots) .invoke ⟨arguments.width + 1, 0⟩ := by
    refine ⟨heffect, hcounts, ?_, hlength ▸ hroom, hroom.mono ?_⟩
    · show arguments.width + 1 ≤ _
      omega
    · show _ - (arguments.width + 1) + 0 ≤ _
      omega
  have hafter : (site.instruction init).slotsAfter ⟨arguments.width + 1, 0⟩
      (values ++ .fresh new :: .fresh new :: slots) .invoke = .unknown :: slots := by
    have hconstructs : (site.instruction init).isConstructorCall = true := rfl
    simp only [Instruction.slotsAfter]
    rw [hsplit, List.take_left' htaken, List.drop_left' htaken,
      calledSlots_construct hconstructs hothers]
    rfl
  have hobject : (values ++ .fresh new :: .fresh new :: slots)[arguments.width]? =
      some (.fresh new) := by
    simp [← hvalues]
  have hcopy : (values ++ .fresh new :: .fresh new :: slots)[arguments.width + 1]? =
      some (.fresh new) := by
    simp [← hvalues]
  have hdepth : (values ++ .fresh new :: .fresh new :: slots).length - arguments.width - 1 =
      slots.length + 1 := by omega
  let step : Step := ⟨⟨site.instruction init, values ++ .fresh new :: .fresh new :: slots,
    ⟨arguments.width + 1, 0⟩⟩, cls, method⟩
  have hvisit := @visit_construct step site arguments.width new rfl rfl rfl hdescriptor hobject
    hcopy pending
  have hpasses : detector.Passes cls method [site.instruction init]
      ⟨values ++ .fresh new :: .fresh new :: slots, pending⟩ []
      ⟨(site.instruction init).slotsAfter ⟨arguments.width + 1, 0⟩
        (values ++ .fresh new :: .fresh new :: slots) .invoke,
        some ⟨init, (values ++ .fresh new :: .fresh new :: slots).length - arguments.width - 1⟩⟩ :=
    Detector.Passes.single hmethod rfl rfl hexecutes hvisit
  rwa [hafter, hdepth] at hpasses

/-! ## Expressions -/

/-- Code can be passed through with these slots below it: none of them was
allocated by this code, what is followed is one of them, and there is room on
top of them. -/
structure Frame (method : Method) (code : List Instruction) (room : Nat) (slots : List Slot)
    (pending : Option Survivor) : Prop where
  ordered : code.Pairwise fun earlier later => earlier.offset < later.offset
  older : ∀ inst ∈ code, ∀ slot ∈ slots, slot.allocation? ≠ some inst.offset
  within : Within slots.length pending
  room : method.Allows (slots.length + room)

/-- Code leaves `values` on top of the slots.  None of them is an object that
waits for its constructor. -/
structure Leaves (cls : Class) (method : Method) (code : List Instruction) (width : Nat)
    (slots : List Slot) (pending : Option Survivor) (values : List Slot)
    (after : Option Survivor) : Prop where
  passes : detector.Passes cls method code ⟨slots, pending⟩ [] ⟨values ++ slots, after⟩
  length : values.length = width
  unallocated : Unallocated values

/-- What is followed behind an expression: the object that it constructed, or
something that lies below its value. -/
def Follows (constructed : Option Nat) (depth : Nat) (pending : Option Survivor) : Prop :=
  match constructed with
  | some init => pending = some ⟨init, depth + 1⟩
  | none => Within depth pending

theorem Follows.within {expression : Expression} {depth : Nat}
    (h : Follows expression.constructed? depth pending) :
    Within (depth + expression.width) pending := by
  cases expression with
  | load | call => exact Within.mono h (Nat.le_add_right ..)
  | construct new dup className arguments init descriptor =>
    obtain rfl : pending = some ⟨init, depth + 1⟩ := h
    rintro survivor ⟨⟩
    exact ⟨Nat.succ_pos depth, Nat.le_refl _⟩

section Frame

variable {code front back : List Instruction} {room width more : Nat} {values others : List Slot}
  {middle after : Option Survivor}

theorem Frame.left (h : Frame method (front ++ back) room slots pending) {less : Nat}
    (hroom : less ≤ room) : Frame method front less slots pending where
  ordered := (List.pairwise_append.1 h.ordered).1
  older inst hinst := h.older inst (List.mem_append_left _ hinst)
  within := h.within
  room := h.room.mono (Nat.add_le_add_left hroom _)

/-- The second part finds the values of the first one below it as well. -/
theorem Frame.right (h : Frame method (front ++ back) room slots pending)
    (hvalues : ∀ inst ∈ back, ∀ slot ∈ values, slot.allocation? ≠ some inst.offset)
    (hwithin : Within (slots.length + values.length) after) (hroom : values.length + more ≤ room) :
    Frame method back more (values ++ slots) after := by
  have hlength : (values ++ slots).length = slots.length + values.length := by
    rw [List.length_append, Nat.add_comm]
  refine ⟨(List.pairwise_append.1 h.ordered).2.1, ?_, hlength ▸ hwithin, h.room.mono ?_⟩
  · intro inst hinst slot hslot
    rcases List.mem_append.1 hslot with hvalue | hbelow
    · exact hvalues inst hinst slot hvalue
    · exact h.older inst (List.mem_append_right _ hinst) slot hbelow
  · omega

theorem Leaves.older (h : Leaves cls method front width slots pending values after) :
    ∀ inst ∈ back, ∀ slot ∈ values, slot.allocation? ≠ some inst.offset := by
  intro inst _ slot hslot
  simp [h.unallocated slot hslot]

theorem Leaves.append (h : Leaves cls method front width slots pending values middle)
    (hlater : Leaves cls method back more (values ++ slots) middle others after) :
    Leaves cls method (front ++ back) (width + more) slots pending (others ++ values) after where
  passes := by
    rw [List.append_assoc]
    exact h.passes.append hlater.passes
  length := by rw [List.length_append, h.length, hlater.length, Nat.add_comm]
  unallocated slot hslot :=
    (List.mem_append.1 hslot).elim (hlater.unallocated slot) (h.unallocated slot)

end Frame

mutual

/-- An expression leaves its value.  The slots below it are any, since the
arguments of an outer call may already be there. -/
theorem leaves_expression (hmethod : method.Sequential) :
    (expression : Expression) → expression.WellFormed →
    {slots : List Slot} → {pending : Option Survivor} →
    Frame method expression.code expression.room slots pending →
      ∃ values after,
        Leaves cls method expression.code expression.width slots pending values after ∧
          Follows expression.constructed? slots.length after
  | .load inst width, ⟨htargets, hload⟩, _, pending, hframe => by
    obtain ⟨values, hpasses, hlength, hvalues⟩ :=
      exists_passes_load hmethod htargets hload hframe.within hframe.room
    exact ⟨values, pending, ⟨hpasses, hlength, hvalues⟩, hframe.within⟩
  | .call arguments offset site, ⟨hformed, htakes⟩, slots, _, hframe => by
    have hwidth : arguments.width ≤ max arguments.room 1 :=
      Nat.le_trans arguments.width_le_room (Nat.le_max_left ..)
    obtain ⟨values, after, hleaves, hwithin⟩ :=
      leaves_arguments hmethod arguments hformed (hframe.left (Nat.le_max_left ..))
    have hcall : detector.Passes cls method [site.instruction offset] ⟨values ++ slots, after⟩ []
        ⟨resultSlots 1 ++ slots, kept slots.length after⟩ :=
      passes_call hmethod htakes hleaves.length
        (hframe.room.mono (Nat.add_le_add_left hwidth _))
        (hframe.room.mono (Nat.add_le_add_left (Nat.le_max_right ..) _))
    exact ⟨resultSlots 1, kept slots.length after,
      ⟨hleaves.passes.append hcall, rfl, unallocated_resultSlots 1⟩, hwithin.kept _⟩
  | .construct new dup className arguments init descriptor, ⟨hformed, hdescriptor⟩, slots, pending,
      hframe => by
    let call := CallSite.instruction ⟨.special, className, "<init>", descriptor⟩ init
    have hwhole : Frame method ([⟨new, .new, .type className⟩, ⟨dup, 0x59, .none⟩] ++
        (arguments.code ++ [call])) (2 + arguments.room) slots pending := hframe
    have hroom : method.Allows (slots.length + 2 + arguments.room) :=
      hframe.room.mono (Nat.le_of_eq (Nat.add_assoc ..))
    have hallocate : detector.Passes cls method [⟨new, .new, .type className⟩, ⟨dup, 0x59, .none⟩]
        ⟨slots, pending⟩ [] ⟨.fresh new :: .fresh new :: slots, pending⟩ :=
      passes_allocate hmethod hframe.within (hroom.mono (Nat.le_add_right ..))
    have hnew : ∀ inst ∈ arguments.code ++ [call], ∀ slot ∈ [Slot.fresh new, .fresh new],
        slot.allocation? ≠ some inst.offset := by
      intro inst hinst slot hslot
      have hlater : new < inst.offset :=
        (List.pairwise_cons.1 hwhole.ordered).1 inst (List.mem_cons_of_mem _ hinst)
      have hfresh : slot = .fresh new := by simpa using hslot
      rw [hfresh]
      exact fun heq => Nat.ne_of_lt hlater (Option.some.inj heq)
    have harguments : Frame method arguments.code arguments.room
        (.fresh new :: .fresh new :: slots) pending :=
      (hwhole.right hnew (hframe.within.mono (Nat.le_add_right ..)) (Nat.le_refl _)).left
        (Nat.le_refl _)
    obtain ⟨values, after, hleaves, _⟩ := leaves_arguments hmethod arguments hformed harguments
    have hothers : ∀ slot ∈ slots, slot.allocation? ≠ some new :=
      hframe.older _ (List.mem_cons_self ..)
    -- Whatever was followed behind the arguments, now it is this object.
    have hconstruct : detector.Passes cls method [call]
        ⟨values ++ .fresh new :: .fresh new :: slots, after⟩ []
        ⟨.unknown :: slots, some ⟨init, slots.length + 1⟩⟩ :=
      passes_construct hmethod hdescriptor hleaves.length hothers
        (hroom.mono (Nat.add_le_add_left arguments.width_le_room _))
    have hpasses := hallocate.append (hleaves.passes.append hconstruct)
    exact ⟨[.unknown], some ⟨init, slots.length + 1⟩,
      ⟨hpasses, rfl, unallocated_resultSlots 1⟩, rfl⟩

theorem leaves_arguments (hmethod : method.Sequential) :
    (arguments : Arguments) → arguments.WellFormed →
    {slots : List Slot} → {pending : Option Survivor} →
    Frame method arguments.code arguments.room slots pending →
      ∃ values after, Leaves cls method arguments.code arguments.width slots pending values after ∧
        Within (slots.length + arguments.width) after
  | .none, _, _, pending, hframe =>
    ⟨[], pending, ⟨.nil _, rfl, fun _ hslot => absurd hslot List.not_mem_nil⟩, hframe.within⟩
  | .cons first rest, ⟨hfirst, hrest⟩, slots, _, hframe => by
    obtain ⟨values, middle, hleaves, hfollows⟩ :=
      leaves_expression hmethod first hfirst (hframe.left (Nat.le_max_left ..))
    have hwithin : Within (slots.length + values.length) middle :=
      hleaves.length ▸ hfollows.within
    have hroom : values.length + rest.room ≤ max first.room (first.width + rest.room) :=
      hleaves.length ▸ Nat.le_max_right ..
    obtain ⟨others, after, hlater, hafter⟩ :=
      leaves_arguments hmethod rest hrest (hframe.right hleaves.older hwithin hroom)
    refine ⟨others ++ values, after, hleaves.append hlater, ?_⟩
    rw [List.length_append, hleaves.length] at hafter
    exact hafter.mono (by rw [Arguments.width]; omega)

end

/-! ## Statements -/

/-- Dropping a value drops the object that is followed, if it is the value. -/
theorem passes_pop {constructed : Option Nat} {slot : Slot} {pop : Nat}
    (hmethod : method.Sequential) (hfollows : Follows constructed 0 pending)
    (hroom : method.Allows 1) :
    detector.Passes cls method [⟨pop, .pop, .none⟩] ⟨[slot], pending⟩
      (constructed.map fun init => discarded.report (cls.locate method init) none).toList
      ⟨[], none⟩ := by
  have heffect : Opcode.pop.effect? = some (.replace 1 0) := by decide
  have hexecutes : method.Executes ⟨pop, .pop, .none⟩ [slot] (.replace 1 0) ⟨1, 0⟩ :=
    ⟨heffect, rfl, Nat.le_refl 1, hroom, hroom.mono (Nat.zero_le 1)⟩
  have hvisit : visit ⟨⟨⟨pop, .pop, .none⟩, [slot], ⟨1, 0⟩⟩, cls, method⟩ pending = .ok
      (constructed.map fun init => discarded.report (cls.locate method init) none).toList none := by
    cases constructed with
    | none =>
      obtain rfl : pending = none := Within.eq_none hfollows
      rfl
    | some init =>
      obtain rfl : pending = some ⟨init, 1⟩ := hfollows
      rfl
  exact Detector.Passes.single hmethod rfl rfl hexecutes hvisit

theorem effect_of_store : ∀ op ∈ storeOpcodes,
    op.effect? = some (.replace 1 0) ∧ isPlain op = true := by
  decide +kernel

/-- A statement begins and ends with an empty stack, and nothing is followed
from one statement to the next. -/
theorem passes_statement (hmethod : method.Sequential) {statement : Statement}
    (hformed : statement.WellFormed)
    (hordered : statement.code.Pairwise fun earlier later => earlier.offset < later.offset)
    (hroom : method.Allows statement.room) :
    detector.Passes cls method statement.code ⟨[], none⟩ (statement.report? cls method).toList
      ⟨[], none⟩ := by
  have hframe : Frame method statement.code statement.room [] none :=
    ⟨hordered, fun _ _ _ hslot => absurd hslot List.not_mem_nil, nofun,
      hroom.mono (Nat.le_of_eq (Nat.zero_add _))⟩
  cases statement with
  | discard value pop =>
    obtain ⟨hvalue, hwidth⟩ := hformed
    obtain ⟨values, after, hleaves, hfollows⟩ :=
      @leaves_expression cls method hmethod value hvalue _ _ (hframe.left (Nat.le_refl _))
    obtain ⟨slot, rfl⟩ := List.length_eq_one_iff.1 (hleaves.length.trans hwidth)
    have hroomOnce : method.Allows 1 := hroom.mono (hwidth ▸ value.width_le_room)
    exact hleaves.passes.append (passes_pop hmethod hfollows hroomOnce)
  | store value inst =>
    obtain ⟨hvalue, hwidth, hopcode, htargets⟩ := hformed
    obtain ⟨heffect, hplain⟩ := effect_of_store inst.opcode hopcode
    obtain ⟨values, after, hleaves, hfollows⟩ :=
      @leaves_expression cls method hmethod value hvalue _ _ (hframe.left (Nat.le_refl _))
    obtain ⟨slot, rfl⟩ := List.length_eq_one_iff.1 (hleaves.length.trans hwidth)
    have hroomOnce : method.Allows 1 := hroom.mono (hwidth ▸ value.width_le_room)
    have hexecutes : method.Executes inst [slot] (.replace 1 0) ⟨1, 0⟩ :=
      ⟨heffect, rfl, Nat.le_refl 1, hroomOnce, hroomOnce.mono (Nat.zero_le 1)⟩
    have hstore : detector.Passes cls method [inst] ⟨[slot], after⟩ [] ⟨[], kept 0 after⟩ :=
      passes_plain hmethod hplain htargets hexecutes
    rw [hfollows.within.kept_zero] at hstore
    exact hleaves.passes.append hstore
  | call arguments offset site =>
    obtain ⟨hvalues, htakes⟩ := hformed
    obtain ⟨values, after, hleaves, hwithin⟩ :=
      @leaves_arguments cls method hmethod arguments hvalues _ _ (hframe.left (Nat.le_refl _))
    have hroomArguments : method.Allows (([] : List Slot).length + arguments.width) :=
      hframe.room.mono (Nat.add_le_add_left arguments.width_le_room _)
    have hcall : detector.Passes cls method [site.instruction offset] ⟨values ++ [], after⟩ []
        ⟨[], kept 0 after⟩ :=
      passes_call hmethod htakes hleaves.length hroomArguments (hroom.mono (Nat.zero_le _))
    rw [hwithin.kept_zero] at hcall
    exact hleaves.passes.append hcall

theorem passes_statements (hmethod : method.Sequential) {statements : List Statement}
    (hformed : ∀ statement ∈ statements, statement.WellFormed)
    (hordered : (statements.flatMap Statement.code).Pairwise
      fun earlier later => earlier.offset < later.offset)
    (hroom : ∀ statement ∈ statements, method.Allows statement.room) :
    detector.Passes cls method (statements.flatMap Statement.code) ⟨[], none⟩
      (statements.filterMap (Statement.report? cls method)) ⟨[], none⟩ := by
  induction statements with
  | nil => exact .nil _
  | cons statement rest ih =>
    obtain ⟨hfirst, hrest⟩ := List.forall_mem_cons.1 hformed
    obtain ⟨hroomFirst, hroomRest⟩ := List.forall_mem_cons.1 hroom
    obtain ⟨horderedFirst, horderedRest, _⟩ := List.pairwise_append.1 hordered
    have hstatement : detector.Passes cls method statement.code ⟨[], none⟩
        (statement.report? cls method).toList ⟨[], none⟩ :=
      passes_statement hmethod hfirst horderedFirst hroomFirst
    have hpasses := hstatement.append (ih hrest horderedRest hroomRest)
    rw [List.filterMap_cons, List.flatMap_cons]
    cases hreport : statement.report? cls method with
    | none =>
      rw [hreport] at hpasses
      exact hpasses
    | some finding =>
      rw [hreport] at hpasses
      exact hpasses

end DiscardedObject

end BytecodeLint
