import BytecodeLint.Proofs.Pairing
import BytecodeLint.Proofs.Sequence

/-!
# What the second call of a boxing pair takes

Where there are no jumps, control comes to a call from the instruction before
it, and the detector compares these two.  This module says when the call takes
the value that the instruction before it left, and nothing else.

The detector reads descriptors to know this, but not all of them.  A call that
boxes an unboxed value or a literal has the exact descriptor, and a call that
unboxes has no parameters.  Behind a parse only the class and the name of the
call are compared, and `Integer.valueOf` with a radix takes a text below the
value that was parsed: `inRadix` is such a method.  A constructor leaves nothing
itself.  What is on top then is its object, if a copy of it was made, or else
any value that was there before.

There are five groups.

* `Makes`: what the first instruction is, for each state behind it.
* `Boxes` and `Unboxes`: what the second one is, for each rule that it breaks.
* The slots of both, by the descriptors of the wrapper.
* `TakesArgument`, `TakesReceiver` and `Uses`.
* `uses_of_found` is the result.
-/

namespace BytecodeLint

/-! ## Calls by their texts -/

theorem Text.startsWith_iff {text start : String} :
    startsWith text start = true ↔ ∃ rest, text = start ++ rest := by
  unfold startsWith
  rw [List.isPrefixOf_iff_prefix]
  constructor
  · rintro ⟨rest, hrest⟩
    refine ⟨String.ofList rest, ?_⟩
    rw [← String.toList_inj, String.toList_append, String.toList_ofList, hrest]
  · rintro ⟨rest, rfl⟩
    exact ⟨rest.toList, (String.toList_append ..).symm⟩

theorem Instruction.isCallTo_iff {inst : Instruction} {opcode : Opcode}
    {owner name descriptor : String} :
    inst.isCallTo opcode owner name descriptor = true ↔
      inst.opcode = opcode ∧ ∃ site, inst.call? = some site ∧ site.owner = owner ∧
        site.name = name ∧ site.descriptor = descriptor := by
  simp [isCallTo, Option.any_eq_true, and_assoc]

namespace Boxing

/-! ## The first instruction of a pair -/

/-- The instruction puts a value that belongs to the wrapper, and `state` says
which. -/
inductive Makes (cls : Class) (inst : Instruction) : Wrapper → State → Prop
  | unboxing {wrapper}
      (call : inst.isCallTo .invokevirtual wrapper.className wrapper.unboxName
        wrapper.unboxDescriptor = true) :
      Makes cls inst wrapper (.unboxed wrapper)
  | parsing {wrapper name} (parses : wrapper.parseName = some name)
      (call : inst.isCallTo .invokestatic wrapper.className name wrapper.parseDescriptor = true) :
      Makes cls inst wrapper (.parsed wrapper)
  | constructing {wrapper}
      (call : inst.isCallTo .invokespecial wrapper.className "<init>"
        wrapper.constructorDescriptor = true) :
      Makes cls inst wrapper (.boxed wrapper)
  | boxing {wrapper site} (opcode : inst.opcode = .invokestatic) (call : inst.call? = some site)
      (owner : site.owner = wrapper.className) (name : site.name = "valueOf")
      (noText : ¬ ∃ rest, site.descriptor = "(Ljava/lang/String;" ++ rest) :
      Makes cls inst wrapper (.boxed wrapper)
  | boxingText {wrapper site} (opcode : inst.opcode = .invokestatic)
      (call : inst.call? = some site) (owner : site.owner = wrapper.className)
      (name : site.name = "valueOf")
      (text : ∃ rest, site.descriptor = "(Ljava/lang/String;)" ++ rest)
      (supported : wrapper.className ≠ Wrapper.boolean.className ∨ 49 ≤ cls.majorVersion) :
      Makes cls inst wrapper (.boxedString wrapper)
  | literal (opcode : inst.opcode = .iconst0 ∨ inst.opcode = .iconst1) :
      Makes cls inst .boolean .zeroOrOne
  | object {ref} (opcode : inst.opcode = .getstatic) (field : inst.field? = some ref)
      (owner : ref.owner = Wrapper.boolean.className) (name : ref.name = "TRUE" ∨ ref.name = "FALSE") :
      Makes cls inst .boolean .booleanObject

theorem Wrapper.of_ofClass? {owner : String} {wrapper : Wrapper}
    (h : Wrapper.ofClass? owner = some wrapper) :
    wrapper ∈ Wrapper.all ∧ owner = wrapper.className := by
  have hname := List.find?_some (p := fun wrapper : Wrapper => wrapper.className == owner) h
  exact ⟨List.mem_of_find?_eq_some h, (eq_of_beq hname).symm⟩

/-- Wherever a pair may begin, the state says what the instruction makes. -/
theorem makes_of_after {step : Step} (h : State.after step ≠ .nothing) :
    ∃ wrapper ∈ Wrapper.all, Makes step.cls step.instruction wrapper (State.after step) := by
  -- Each test of the definition tells one field of `Makes`, so they are met in its order.
  generalize hstate : State.after step = state at h
  unfold State.after at hstate
  simp only at hstate
  split at hstate
  case isTrue hliteral =>
    subst hstate
    rw [Bool.or_eq_true, beq_iff_eq, beq_iff_eq] at hliteral
    exact ⟨.boolean, List.mem_cons_self .., .literal hliteral⟩
  split at hstate
  case isTrue hget =>
    split at hstate
    case isFalse => exact absurd hstate.symm h
    case isTrue hconstant =>
      subst hstate
      obtain ⟨ref, hfield, hnamed⟩ := (Option.any_eq_true _ _).1 hconstant
      rw [Bool.and_eq_true, Bool.or_eq_true, beq_iff_eq, beq_iff_eq, beq_iff_eq] at hnamed
      exact ⟨.boolean, List.mem_cons_self .., .object (eq_of_beq hget) hfield hnamed.1 hnamed.2⟩
  split at hstate
  case h_2 => exact absurd hstate.symm h
  case h_1 site wrapper hcall hclass =>
    obtain ⟨_, hsite, hclass⟩ := Option.bind_eq_some_iff.1 hclass
    cases hcall.symm.trans hsite
    obtain ⟨hwrapper, howner⟩ := Wrapper.of_ofClass? hclass
    refine ⟨wrapper, hwrapper, ?_⟩
    have hcalls {opcode : Opcode} {name descriptor : String} (hopcode : step.opcode = opcode)
        (hname : site.name = name) (hdescriptor : site.descriptor = descriptor) :
        step.instruction.isCallTo opcode wrapper.className name descriptor = true :=
      Instruction.isCallTo_iff.2 ⟨hopcode, site, hcall, howner, hname, hdescriptor⟩
    split at hstate
    case isTrue hvirtual =>
      split at hstate
      case isFalse => exact absurd hstate.symm h
      case isTrue hunbox =>
        subst hstate
        rw [Bool.and_eq_true, beq_iff_eq, beq_iff_eq] at hunbox
        exact .unboxing (hcalls (eq_of_beq hvirtual) hunbox.1 hunbox.2)
    split at hstate
    case isTrue hspecial =>
      split at hstate
      case isFalse => exact absurd hstate.symm h
      case isTrue hconstruct =>
        subst hstate
        rw [Bool.and_eq_true, beq_iff_eq, beq_iff_eq] at hconstruct
        exact .constructing (hcalls (eq_of_beq hspecial) hconstruct.1 hconstruct.2)
    split at hstate
    case isFalse => exact absurd hstate.symm h
    case isTrue hstatic =>
      split at hstate
      case isTrue hvalueOf =>
        split at hstate
        case isTrue htext =>
          split at hstate
          case isFalse => exact absurd hstate.symm h
          case isTrue hsupported =>
            subst hstate
            refine .boxingText (eq_of_beq hstatic) hcall howner (eq_of_beq hvalueOf)
              (Text.startsWith_iff.1 htext) ?_
            simpa using hsupported
        case isFalse =>
          split at hstate
          case isTrue => exact absurd hstate.symm h
          case isFalse htext =>
            subst hstate
            exact .boxing (eq_of_beq hstatic) hcall howner (eq_of_beq hvalueOf)
              fun hstarts => htext (Text.startsWith_iff.2 hstarts)
      case isFalse =>
        split at hstate
        case isFalse => exact absurd hstate.symm h
        case isTrue hparse =>
          subst hstate
          rw [Bool.and_eq_true, beq_iff_eq, beq_iff_eq] at hparse
          exact .parsing hparse.1 (hcalls (eq_of_beq hstatic) rfl hparse.2)

/-- The value is a primitive one. -/
def State.IsPrimitive : State → Prop
  | unboxed _ | parsed _ | zeroOrOne => True
  | _ => False

/-! ## The second instruction of a pair -/

/-- The instruction calls `valueOf` or a constructor of the wrapper. -/
structure Boxes (wrapper : Wrapper) (inst : Instruction) (site : CallSite) : Prop where
  call : inst.call? = some site
  owner : site.owner = wrapper.className
  named : (inst.opcode = .invokestatic ∧ site.name = "valueOf") ∨
    (inst.opcode = .invokespecial ∧ site.name = "<init>")

/-- The instruction calls a method of the wrapper that takes nothing. -/
structure Unboxes (wrapper : Wrapper) (inst : Instruction) (site : CallSite) : Prop where
  call : inst.call? = some site
  owner : site.owner = wrapper.className
  opcode : inst.opcode = .invokevirtual
  bare : ∃ rest, site.descriptor = "()" ++ rest

/-- The call takes one primitive value of the type that belongs to the wrapper. -/
def Wrapper.TakesPrimitive (wrapper : Wrapper) (site : CallSite) : Prop :=
  (site.name = "valueOf" ∧ site.descriptor = wrapper.valueOfDescriptor) ∨
    (site.name = "<init>" ∧ site.descriptor = wrapper.constructorDescriptor)

section Second

variable {cls : Class} {wrapper : Wrapper} {inst following : Instruction} {state : State}
  {rule : Rule}

theorem boxes_of_isCallTo {descriptor : String}
    (h : following.isCallTo .invokestatic wrapper.className "valueOf" descriptor = true)
    (htakes : descriptor = wrapper.valueOfDescriptor) :
    ∃ site, Boxes wrapper following site ∧ wrapper.TakesPrimitive site := by
  obtain ⟨hopcode, site, hcall, howner, hname, hdescriptor⟩ := Instruction.isCallTo_iff.1 h
  exact ⟨site, ⟨hcall, howner, Or.inl ⟨hopcode, hname⟩⟩, Or.inl ⟨hname, hdescriptor.trans htakes⟩⟩

theorem constructs_of_isCallTo
    (h : following.isCallTo .invokespecial wrapper.className "<init>"
      wrapper.constructorDescriptor = true) :
    ∃ site, Boxes wrapper following site ∧ wrapper.TakesPrimitive site := by
  obtain ⟨hopcode, site, hcall, howner, hname, hdescriptor⟩ := Instruction.isCallTo_iff.1 h
  exact ⟨site, ⟨hcall, howner, Or.inr ⟨hopcode, hname⟩⟩, Or.inr ⟨hname, hdescriptor⟩⟩

theorem callsByName_iff {opcode : Opcode} {name : String} :
    callsByName following opcode wrapper name = true ↔
      following.opcode = opcode ∧ ∃ site, following.call? = some site ∧
        site.owner = wrapper.className ∧ site.name = name := by
  simp [callsByName, Option.any_eq_true]

theorem unboxes_of_isCallTo (h : unboxes following wrapper = true) :
    ∃ site, Unboxes wrapper following site := by
  obtain ⟨hopcode, site, hcall, howner, _, hdescriptor⟩ := Instruction.isCallTo_iff.1 h
  exact ⟨site, hcall, howner, hopcode, wrapper.primitive, hdescriptor⟩

theorem unboxes_of_converts (h : converts following wrapper = true) :
    ∃ site, Unboxes wrapper following site := by
  unfold converts at h
  rw [Bool.and_eq_true, beq_iff_eq, Option.any_eq_true] at h
  obtain ⟨hopcode, site, hcall, hsite⟩ := h
  rw [Bool.and_eq_true, Bool.and_eq_true, beq_iff_eq] at hsite
  exact ⟨site, hcall, hsite.1.1, hopcode, Text.startsWith_iff.1 hsite.1.2⟩

theorem unboxes_of_boxed (h : (State.boxed wrapper).rule? following = some rule) :
    ∃ site, Unboxes wrapper following site := by
  simp only [State.rule?] at h
  split at h
  · exact unboxes_of_isCallTo ‹_›
  · split at h
    · exact unboxes_of_converts ‹_›
    · cases h

/-- A rule about a primitive value is broken by a call that boxes, and one about
an object by a call that unboxes.  Only behind a call that parses is the
descriptor not looked at. -/
theorem call_of_rule? (hmakes : Makes cls inst wrapper state)
    (hrule : state.rule? following = some rule) :
    (state.IsPrimitive ∧ ∃ site, Boxes wrapper following site ∧
        (state ≠ .parsed wrapper → wrapper.TakesPrimitive site)) ∨
      (¬ state.IsPrimitive ∧ ∃ site, Unboxes wrapper following site) := by
  cases hmakes with
  | unboxing =>
    refine Or.inl ⟨trivial, ?_⟩
    simp only [State.rule?] at hrule
    split at hrule
    · obtain ⟨site, hboxes, htakes⟩ := constructs_of_isCallTo ‹_›
      exact ⟨site, hboxes, fun _ => htakes⟩
    · split at hrule
      · obtain ⟨site, hboxes, htakes⟩ := boxes_of_isCallTo ‹_› rfl
        exact ⟨site, hboxes, fun _ => htakes⟩
      · cases hrule
  | parsing =>
    refine Or.inl ⟨trivial, ?_⟩
    simp only [State.rule?] at hrule
    split at hrule
    · cases hrule
      obtain ⟨hopcode, site, hcall, howner, hname⟩ := callsByName_iff.1 ‹_›
      exact ⟨site, ⟨hcall, howner, Or.inl ⟨hopcode, hname⟩⟩, fun hne => absurd rfl hne⟩
    · split at hrule
      · cases hrule
        obtain ⟨hopcode, site, hcall, howner, hname⟩ := callsByName_iff.1 ‹_›
        exact ⟨site, ⟨hcall, howner, Or.inr ⟨hopcode, hname⟩⟩, fun hne => absurd rfl hne⟩
      · cases hrule
  | literal =>
    refine Or.inl ⟨trivial, ?_⟩
    simp only [State.rule?] at hrule
    split at hrule
    · obtain ⟨site, hboxes, htakes⟩ :
          ∃ site, Boxes .boolean following site ∧ Wrapper.boolean.TakesPrimitive site :=
        boxes_of_isCallTo ‹_› rfl
      exact ⟨site, hboxes, fun _ => htakes⟩
    · cases hrule
  | constructing => exact Or.inr ⟨id, unboxes_of_boxed hrule⟩
  | boxing => exact Or.inr ⟨id, unboxes_of_boxed hrule⟩
  | boxingText =>
    refine Or.inr ⟨id, ?_⟩
    simp only [State.rule?] at hrule
    split at hrule
    · exact unboxes_of_isCallTo ‹_›
    · cases hrule
  | object =>
    refine Or.inr ⟨id, ?_⟩
    simp only [State.rule?] at hrule
    split at hrule
    · exact unboxes_of_isCallTo ‹_›
    · cases hrule

end Second

/-! ## Slots -/

/-- The slots of the four descriptors of every wrapper. -/
theorem callSlots_wrapper : ∀ wrapper ∈ Wrapper.all,
    callSlots wrapper.unboxDescriptor = .ok ⟨0, fieldSlots wrapper.primitive⟩ ∧
      callSlots wrapper.parseDescriptor = .ok ⟨1, fieldSlots wrapper.primitive⟩ ∧
      callSlots wrapper.valueOfDescriptor = .ok ⟨fieldSlots wrapper.primitive, 1⟩ ∧
      callSlots wrapper.constructorDescriptor = .ok ⟨fieldSlots wrapper.primitive, 0⟩ := by
  decide +kernel

theorem fieldSlots_pos (descriptor : String) : 0 < fieldSlots descriptor := by
  unfold fieldSlots
  split <;> decide

section Slots

variable {cls : Class} {wrapper : Wrapper} {inst : Instruction} {state : State} {site : CallSite}
  {counts : StackEffect}

theorem effect?_of_call (h : inst.opcode ∈ [Opcode.invokevirtual, .invokespecial, .invokestatic]) :
    inst.opcode.effect? = some .invoke := by
  have hall : ∀ op ∈ [Opcode.invokevirtual, .invokespecial, .invokestatic],
      op.effect? = some .invoke := by decide +kernel
  exact hall _ h

/-- A call of a known descriptor puts what the descriptor says. -/
theorem pushes_of_isCallTo {opcode : Opcode} {owner name descriptor : String} {slots : CallSlots}
    (h : inst.isCallTo opcode owner name descriptor = true)
    (hopcode : opcode ∈ [Opcode.invokevirtual, .invokespecial, .invokestatic])
    (hcounts : inst.stackEffect = .ok counts) (hslots : callSlots descriptor = .ok slots) :
    counts.pushes = slots.result := by
  obtain ⟨rfl, site, hcall, _, _, rfl⟩ := Instruction.isCallTo_iff.1 h
  obtain ⟨found, hfound, rfl⟩ :=
    Instruction.callSlots_of_stackEffect (effect?_of_call hopcode) hcall hcounts
  cases hslots.symm.trans hfound
  rfl

/-- A primitive value takes the slots of its type. -/
theorem Makes.pushes (h : Makes cls inst wrapper state) (hwrapper : wrapper ∈ Wrapper.all)
    (hprimitive : state.IsPrimitive) (hcounts : inst.stackEffect = .ok counts) :
    counts.pushes = fieldSlots wrapper.primitive := by
  obtain ⟨hunbox, hparse, _⟩ := callSlots_wrapper wrapper hwrapper
  cases h with
  | unboxing call => exact pushes_of_isCallTo call (by decide) hcounts hunbox
  | parsing _ call => exact pushes_of_isCallTo call (by decide) hcounts hparse
  | literal opcode =>
    have hall : ∀ op ∈ [Opcode.iconst0, .iconst1], op.effect? = some (.pushConstant 1) := by
      decide +kernel
    have heffect : inst.opcode.effect? = some (.pushConstant 1) := hall _ (by simpa using opcode)
    obtain ⟨effect, hfound, hcounted⟩ := Instruction.stackEffect_ok hcounts
    cases heffect.symm.trans hfound
    cases hcounted
    rfl
  | constructing | boxing | boxingText | object => cases hprimitive

theorem Wrapper.TakesPrimitive.params (h : wrapper.TakesPrimitive site)
    (hwrapper : wrapper ∈ Wrapper.all) :
    ∃ slots, callSlots site.descriptor = .ok slots ∧
      slots.params = fieldSlots wrapper.primitive := by
  obtain ⟨_, _, hvalueOf, hconstructor⟩ := callSlots_wrapper wrapper hwrapper
  rcases h with ⟨_, hdescriptor⟩ | ⟨_, hdescriptor⟩
  · exact ⟨_, hdescriptor ▸ hvalueOf, rfl⟩
  · exact ⟨_, hdescriptor ▸ hconstructor, rfl⟩

/-- A descriptor without parameters takes no slots. -/
theorem params_of_bare {rest : String} {slots : CallSlots}
    (h : callSlots ("()" ++ rest) = .ok slots) : slots.params = 0 := by
  have hread : MethodDescriptor.read ("()" ++ rest).toList =
      (MethodDescriptor.readResult rest.toList).map (⟨[], ·⟩) := by
    have hchars : ("()" ++ rest).toList = '(' :: ')' :: rest.toList := by simp
    rw [hchars]
    unfold MethodDescriptor.read
    simp only [MethodDescriptor.readParameters]
    show (MethodDescriptor.readResult rest.toList >>= fun result =>
      Except.ok (MethodDescriptor.mk [] result)) = _
    cases MethodDescriptor.readResult rest.toList <;> rfl
  unfold callSlots at h
  rw [hread] at h
  cases hresult : MethodDescriptor.readResult rest.toList with
  | error fault =>
    rw [hresult] at h
    cases h
  | ok result =>
    rw [hresult] at h
    cases h
    rfl

end Slots

/-! ## What the call takes -/

/-- What the first instruction puts is the only argument of the call, and lies on
top of whatever stack there is. -/
def TakesArgument (maker visit : Visit) (site : CallSite) : Prop :=
  ∃ slots, callSlots site.descriptor = .ok slots ∧ 0 < slots.params ∧
    visit.effect.pops = slots.params + (if site.kind.hasReceiver then 1 else 0) ∧
    ∀ stack clock after later, maker.instruction.Performs stack clock after later →
      ∃ argument, argument.length = slots.params ∧
        after = argument ++ stack.drop maker.effect.pops ∧
        ∀ entry ∈ argument, entry.maker = some maker.instruction.offset

/-- The call takes only its receiver.  This is the value that the first
instruction puts, or the object that it constructs and of which there is a
copy. -/
def TakesReceiver (maker visit : Visit) (site : CallSite) : Prop :=
  ∃ slots, callSlots site.descriptor = .ok slots ∧ slots.params = 0 ∧
    visit.effect.pops = (if site.kind.hasReceiver then 1 else 0) ∧
    ∀ stack clock after later, maker.instruction.Performs stack clock after later →
      (0 < maker.effect.pushes ∨ ∃ params copy base, maker.instruction.Constructs params ∧
        LeavesCopy params stack copy base) →
      maker.instruction.Produces stack after

/-- The second instruction of a pair uses what the first one leaves.  Behind a
parse the call may take something else as well. -/
inductive Uses (wrapper : Wrapper) (state : State) (maker visit : Visit) : Prop
  | argument {site} (primitive : state.IsPrimitive) (boxes : Boxes wrapper visit.instruction site)
      (declared : state ≠ .parsed wrapper → wrapper.TakesPrimitive site)
      (taken : wrapper.TakesPrimitive site → TakesArgument maker visit site)
  | receiver {site} (object : ¬ state.IsPrimitive) (unboxes : Unboxes wrapper visit.instruction site)
      (taken : TakesReceiver maker visit site)

section Taken

variable {cls : Class} {method : Method} {wrapper : Wrapper} {state : State} {maker visit : Visit}
  {site : CallSite} {effect : Effect}

theorem State.ne_nothing_of_rule? {inst : Instruction} {rule : Rule}
    (h : state.rule? inst = some rule) : state ≠ .nothing := by
  rintro rfl
  cases h

/-- The first instruction of a pair is followed by the next one. -/
theorem State.fallsThrough_of_after {step : Step} (h : State.after step ≠ .nothing) :
    step.instruction.fallsThrough = true := by
  have hfalls : [Opcode.iconst0, .iconst1, .getstatic, .invokevirtual, .invokespecial,
      .invokestatic].all (·.fallsThrough) = true := by decide
  exact List.all_eq_true.1 hfalls _ (opcode_of_after h)

theorem takesArgument (hboxes : Boxes wrapper visit.instruction site)
    (htakes : wrapper.TakesPrimitive site) (hmakes : Makes cls maker.instruction wrapper state)
    (hwrapper : wrapper ∈ Wrapper.all) (hprimitive : state.IsPrimitive)
    (heffect : maker.instruction.opcode.effect? = some effect) (hcomputes : effect.computes = true)
    (hmaker : maker.Counted) (hvisit : visit.Counted) : TakesArgument maker visit site := by
  obtain ⟨slots, hslots, hparams⟩ := htakes.params hwrapper
  have hinvokes : visit.instruction.opcode ∈
      [Opcode.invokevirtual, .invokespecial, .invokestatic] := by
    rcases hboxes.named with ⟨hopcode, _⟩ | ⟨hopcode, _⟩ <;> simp [hopcode]
  obtain ⟨found, hfound, hcounts⟩ :=
    Instruction.callSlots_of_stackEffect (effect?_of_call hinvokes) hboxes.call hvisit
  cases hslots.symm.trans hfound
  obtain ⟨other, hother, hcounted⟩ := Instruction.stackEffect_ok hmaker
  cases heffect.symm.trans hother
  refine ⟨slots, hslots, hparams ▸ fieldSlots_pos _, congrArg StackEffect.pops hcounts, ?_⟩
  intro stack clock after later hperforms
  obtain ⟨argument, hafter, hlength, hmade⟩ := hperforms.results heffect hcomputes hcounted
  refine ⟨argument, ?_, hafter, hmade⟩
  rw [hlength, hparams, hmakes.pushes hwrapper hprimitive hmaker]

theorem takesReceiver (hunboxes : Unboxes wrapper visit.instruction site)
    (heffect : maker.instruction.opcode.effect? = some effect) (hcomputes : effect.computes = true)
    (hmaker : maker.Counted) (hvisit : visit.Counted) : TakesReceiver maker visit site := by
  have hinvokes : visit.instruction.opcode ∈
      [Opcode.invokevirtual, .invokespecial, .invokestatic] := by simp [hunboxes.opcode]
  obtain ⟨slots, hslots, hcounts⟩ :=
    Instruction.callSlots_of_stackEffect (effect?_of_call hinvokes) hunboxes.call hvisit
  obtain ⟨rest, hbare⟩ := hunboxes.bare
  have hparams : slots.params = 0 := params_of_bare (hbare ▸ hslots)
  obtain ⟨other, hother, hcounted⟩ := Instruction.stackEffect_ok hmaker
  cases heffect.symm.trans hother
  have hpops : visit.effect.pops = slots.params + (if site.kind.hasReceiver then 1 else 0) :=
    congrArg StackEffect.pops hcounts
  refine ⟨slots, hslots, hparams, by rw [hpops, hparams, Nat.zero_add], ?_⟩
  intro stack clock after later hperforms hputs
  by_cases hpushes : 0 < maker.effect.pushes
  · obtain ⟨top, rest, htop, hmade⟩ := hperforms.made heffect hcomputes hcounted hpushes
    exact .made htop hmade
  · obtain ⟨params, copy, base, hconstructs, hcopy⟩ := hputs.resolve_left hpushes
    exact hconstructs.produces hmaker (Nat.eq_zero_of_not_pos hpushes) hcopy hperforms

/-- The second instruction breaks a rule behind the first one, so it uses what
this one leaves. -/
theorem uses_of_rule? {rule : Rule} (hstate : State.after { maker with cls, method } = state)
    (hrule : state.rule? visit.instruction = some rule) (hmaker : maker.Counted)
    (hvisit : visit.Counted) :
    ∃ wrapper ∈ Wrapper.all, Makes cls maker.instruction wrapper state ∧
      Uses wrapper state maker visit := by
  have hbegins : State.after { maker with cls, method } ≠ .nothing :=
    hstate ▸ State.ne_nothing_of_rule? hrule
  obtain ⟨wrapper, hwrapper, hmakes⟩ := makes_of_after hbegins
  obtain ⟨effect, heffect, hcomputes⟩ := State.computes_of_after hbegins
  subst hstate
  refine ⟨wrapper, hwrapper, hmakes, ?_⟩
  rcases call_of_rule? hmakes hrule with
    ⟨hprimitive, site, hboxes, hdeclared⟩ | ⟨hobject, site, hunboxes⟩
  · exact .argument hprimitive hboxes hdeclared fun hone =>
      takesArgument hboxes hone hmakes hwrapper hprimitive heffect hcomputes hmaker hvisit
  · exact .receiver hobject hunboxes (takesReceiver hunboxes heffect hcomputes hmaker hvisit)

end Taken

/-! ## The result -/

/-- In code without jumps, a report is about two instructions that stand next to
each other.  The first one puts a value that belongs to a wrapper, and nothing
else brings a stack to the second one.  This is a call on the same wrapper that
takes only its receiver, or one that takes what was put as its only argument.
Behind a parse, though, any `valueOf` and any constructor of the wrapper is
reported, whatever it takes. -/
theorem uses_of_found {cls : Class} {method : Method} {state : detector.State} {finding : Finding}
    (hmethod : method.Sequential) (hfinding : finding ∈ detector.foundIn cls state method) :
    ∃ earlier maker visit later pair rule, ∃ wrapper ∈ Wrapper.all,
      method.walk.visits = earlier ++ maker :: visit :: later ∧
      finding = Step.finding { visit with cls, method } rule none ∧
      pair = State.after { maker with cls, method } ∧
      pair.rule? visit.instruction = some rule ∧
      Makes cls maker.instruction wrapper pair ∧ Uses wrapper pair maker visit ∧
      method.Leaves maker visit.slots ∧
      (method.Ascending → ∀ moment, method.ComesTo moment →
        moment.instruction = visit.instruction →
          ∃ source, method.ComesTo source ∧ source.instruction = maker.instruction ∧
            method.Continues source moment) := by
  obtain ⟨_, _, found, last, hfollow, hfound⟩ := Detector.mem_foundIn.1 hfinding
  obtain ⟨front, visit, later, _, progress, _, first, hvisits, hfront, hvisit, hfirst⟩ :=
    Detector.mem_follow hfollow hfound
  obtain ⟨_, rule, hrule, rfl⟩ := rule_of_visit hvisit hfirst
  rcases state_of_follow hfront rfl with hnothing | ⟨earlier, maker, rfl, hafter⟩
  · rw [hnothing] at hrule
    cases hrule
  rw [hafter] at hrule
  have hsplit : method.walk.visits = earlier ++ maker :: visit :: later := by simpa using hvisits
  have hmaker : maker ∈ method.walk.visits := by simp [hsplit]
  have hvisited : visit ∈ method.walk.visits := by simp [hsplit]
  obtain ⟨wrapper, hwrapper, hmakes, huses⟩ :=
    uses_of_rule? rfl hrule (Method.counted_of_visit hmaker) (Method.counted_of_visit hvisited)
  have hbegins : State.after { maker with cls, method } ≠ .nothing :=
    State.ne_nothing_of_rule? hrule
  have hfalls := State.fallsThrough_of_after hbegins
  have hleaves : method.Leaves maker visit.slots := hmethod.leaves_of_visits hsplit hfalls
  refine ⟨earlier, maker, visit, later, State.after { maker with cls, method }, rule, wrapper, hwrapper, hsplit, rfl, rfl, hrule, hmakes,
    huses, hleaves, fun hascending moment hcomes hinst => ?_⟩
  refine Method.exists_continues hascending hsplit (fun source hsource => ?_)
    (hmethod.isHandler _) hcomes hinst
  rw [hmethod.targets source hsource]
  exact List.not_mem_nil

/-- The number that is taken out of its wrapper in `rebox` is the only argument of
the call that wraps it again. -/
theorem rebox_argument :
    rebox.Sequential ∧
      unboxedToValueOf.report (rebox.alone.locate rebox 4) none ∈
        detector.foundIn rebox.alone ⟨.nothing, []⟩ rebox ∧
      ∃ maker visit, maker.instruction = unboxing 1 "java/lang/Integer" "intValue" "()I" ∧
        visit.instruction = valueOfInteger 4 ∧ rebox.Leaves maker visit.slots ∧
        TakesArgument maker visit
          ⟨.static, "java/lang/Integer", "valueOf", "(I)Ljava/lang/Integer;"⟩ := by
  have hmethod : rebox.Sequential := ⟨rfl, by decide⟩
  have hfinding : unboxedToValueOf.report (rebox.alone.locate rebox 4) none ∈
      detector.foundIn rebox.alone ⟨.nothing, []⟩ rebox := by decide +kernel
  obtain ⟨earlier, maker, visit, later, pair, rule, wrapper, _, hsplit, hreport, hpair, _, _, huses,
    hleaves, _⟩ := uses_of_found hmethod hfinding
  have hoffset : 4 = visit.instruction.offset :=
    congrArg (fun finding : Finding => finding.location.offset) hreport
  have hneighbours : ∀ inst ∈ rebox.code, ∀ following ∈ rebox.code,
      [inst, following] <:+: rebox.code → 4 = following.offset →
        inst = unboxing 1 "java/lang/Integer" "intValue" "()I" ∧ following = valueOfInteger 4 := by
    decide
  have hadjacent := Method.adjacent_next hsplit
  obtain ⟨hmaker, hvisit⟩ := hneighbours _ (hadjacent.subset (by simp)) _
    (hadjacent.subset (by simp)) hadjacent hoffset
  have hstates : ∀ visit ∈ rebox.walk.visits, visit.instruction.offset = 1 →
      State.after { visit with cls := rebox.alone, method := rebox } =
        .unboxed ⟨"java/lang/Integer", "I", "intValue", some "parseInt"⟩ := by decide +kernel
  rw [hstates maker (by simp [hsplit]) (by rw [hmaker]; rfl)] at hpair
  subst hpair
  refine ⟨hmethod, hfinding, maker, visit, hmaker, hvisit, hleaves, ?_⟩
  cases huses with
  | receiver object => exact absurd trivial object
  | argument _ boxes declared taken =>
    have hcall := boxes.call
    rw [hvisit] at hcall
    cases hcall
    exact taken (declared nofun)

/-- A method that parses one text and then reads another one in the radix that it
has parsed. -/
def inRadix : Method where
  name := "inRadix"
  descriptor := "(Ljava/lang/String;Ljava/lang/String;)Ljava/lang/Integer;"
  maxStack := some 2
  code :=
    [ ⟨0, 0x2a, .localVar 0⟩
    , ⟨1, 0x2b, .localVar 1⟩
    , ⟨2, .invokestatic,
        .call ⟨.static, "java/lang/Integer", "parseInt", "(Ljava/lang/String;)I"⟩⟩
    , ⟨5, .invokestatic,
        .call ⟨.static, "java/lang/Integer", "valueOf", "(Ljava/lang/String;I)Ljava/lang/Integer;"⟩⟩
    , ⟨8, 0xb0, .none⟩ ]
  lines := []
  handlers := []

/-- The call of `valueOf` is reported, and it takes two arguments.  Only one of
them comes from the call before it. -/
theorem inRadix_reported :
    inRadix.Sequential ∧ inRadix.walk.completes = true ∧
      (analyzeClass catalog inRadix.alone).findings =
        [parsedToValueOf.report (inRadix.alone.locate inRadix 5) none] ∧
      (∀ visit ∈ inRadix.walk.visits, visit.instruction.offset = 5 →
        visit.effect.pops = 2 ∧
          inRadix.ComesTo ⟨visit.instruction, [⟨.other, some 2⟩, ⟨.other, some 0⟩], 0⟩) := by
  have hload : inRadix.Continues ⟨⟨0, 0x2a, .localVar 0⟩, [], 0⟩
      ⟨⟨1, 0x2b, .localVar 1⟩, [⟨.other, some 0⟩], 0⟩ :=
    .next (by decide) (by decide) (Instruction.performs_of_others? (by decide))
  have hother : inRadix.Continues ⟨⟨1, 0x2b, .localVar 1⟩, [⟨.other, some 0⟩], 0⟩
      ⟨⟨2, .invokestatic,
        .call ⟨.static, "java/lang/Integer", "parseInt", "(Ljava/lang/String;)I"⟩⟩,
        [⟨.other, some 1⟩, ⟨.other, some 0⟩], 0⟩ :=
    .next (by decide) (by decide) (Instruction.performs_of_others? (by decide))
  have hparse : inRadix.Continues
      ⟨⟨2, .invokestatic,
        .call ⟨.static, "java/lang/Integer", "parseInt", "(Ljava/lang/String;)I"⟩⟩,
        [⟨.other, some 1⟩, ⟨.other, some 0⟩], 0⟩
      ⟨⟨5, .invokestatic, .call
        ⟨.static, "java/lang/Integer", "valueOf", "(Ljava/lang/String;I)Ljava/lang/Integer;"⟩⟩,
        [⟨.other, some 2⟩, ⟨.other, some 0⟩], 0⟩ :=
    .next (by decide) (by decide) (Instruction.performs_of_others? (by decide +kernel))
  have hcalls : ∀ visit ∈ inRadix.walk.visits, visit.instruction.offset = 5 →
      visit.effect.pops = 2 ∧ visit.instruction = ⟨5, .invokestatic, .call
        ⟨.static, "java/lang/Integer", "valueOf",
          "(Ljava/lang/String;I)Ljava/lang/Integer;"⟩⟩ := by decide +kernel
  refine ⟨⟨rfl, by decide⟩, by decide +kernel, by decide +kernel, fun visit hvisit hoffset => ?_⟩
  obtain ⟨hpops, hinst⟩ := hcalls visit hvisit hoffset
  rw [hinst]
  exact ⟨hpops, ⟨0, 0x2a, .localVar 0⟩, rfl,
    .tail (.tail (.tail .refl (.next hload)) (.next hother)) (.next hparse)⟩

end Boxing

end BytecodeLint
