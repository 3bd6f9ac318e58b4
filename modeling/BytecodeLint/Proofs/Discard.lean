import BytecodeLint.Proofs.Identity
import BytecodeLint.Proofs.Passes
import BytecodeLint.Proofs.Straight

/-!
# Objects that are reported as discarded

The detector follows a constructed object by the depth at which it was left.
It reads the code in order and takes no notice of jumps.

Where control runs straight from the constructor call to the `pop` or
`return`, the depth is enough: the instructions between them never touch the
slots below, so what is discarded is the object itself.  `discards_of_straight`
says this of every execution.

Where a jump leaves the code between them, another value of the same depth
can be taken for the object.  `returnedOrNull` is such a method: the object
that is reported there is returned.

There are three groups.

* What a finding says of the visits before it: `origin_of_follow`.
* The constructor call, which takes an object and leaves a copy of it.
* The results.
-/

namespace BytecodeLint

open OperandStack

/-! ## What a finding says of the visits before it -/

namespace DiscardedObject

variable {cls : Class} {method : Method} {step : Step} {survivor : Survivor}

theorem discarded_of_fate (h : fate survivor step = .discarded) :
    (step.opcode = .pop ∨ step.opcode = .voidReturn) ∧ step.depth = survivor.depth := by
  unfold fate at h
  split at h
  · rename_i hdiscarded
    simpa using hdiscarded
  · split at h <;> cases h

theorem spared_of_fate (h : fate survivor step = .pending) :
    survivor.depth ≤ step.depth - step.effect.pops := by
  unfold fate at h
  split at h
  · cases h
  · split at h
    · cases h
    · exact Nat.not_lt.1 ‹_›

theorem mem_settle {pending : Option Survivor} {finding : Finding}
    (h : finding ∈ (settle step pending).2) :
    ∃ survivor, pending = some survivor ∧ fate survivor step = .discarded ∧
      finding = step.findingAt discarded survivor.offset := by
  unfold settle at h
  split at h
  · cases h
  · rename_i survivor
    split at h
    · cases h
    · exact ⟨survivor, rfl, ‹_›, List.mem_singleton.1 h⟩
    · cases h

/-- What is still followed after a visit was followed before it. -/
theorem settle_eq_some {pending : Option Survivor}
    (h : (settle step pending).1 = some survivor) :
    pending = some survivor ∧ fate survivor step = .pending := by
  unfold settle at h
  split at h
  · cases h
  · split at h
    · cases h
      exact ⟨rfl, ‹_›⟩
    · cases h
    · cases h

/-- What is found at a visit: the survivor is discarded there, or a constructor
call leaves no copy of its object. -/
theorem mem_of_visit {pending after : Option Survivor} {found : List Finding} {finding : Finding}
    (h : visit step pending = .ok found after) (hfinding : finding ∈ found) :
    finding ∈ (settle step pending).2 ∨
      remainsAt step = .ok (some .nothing) ∧ finding = step.findingAt discarded step.offset := by
  rw [visit_eq] at h
  cases hremains : remainsAt step with
  | error fault =>
    rw [hremains] at h
    cases h
  | ok remains =>
    rw [hremains] at h
    rcases remains with _ | ⟨survivor | _⟩
    · cases h
      exact Or.inl hfinding
    · cases h
      exact Or.inl hfinding
    · cases h
      rcases List.mem_append.1 hfinding with hsettled | hown
      · exact Or.inl hsettled
      · exact Or.inr ⟨rfl, List.mem_singleton.1 hown⟩

/-- Behind a visit the detector follows the object that was just constructed,
or the one that it followed before. -/
theorem visit_eq_ok {pending after : Option Survivor} {found : List Finding}
    (h : visit step pending = .ok found after) :
    (∃ survivor, remainsAt step = .ok (some (.copy survivor)) ∧ after = some survivor) ∨
      after = (settle step pending).1 := by
  rw [visit_eq] at h
  cases hremains : remainsAt step with
  | error fault =>
    rw [hremains] at h
    cases h
  | ok remains =>
    rw [hremains] at h
    rcases remains with _ | ⟨survivor | _⟩
    · cases h
      exact Or.inr rfl
    · cases h
      exact Or.inl ⟨survivor, rfl, rfl⟩
    · cases h
      exact Or.inr rfl

/-- A survivor that is followed at the end was followed all the time, or
some visit called its constructor and no visit since then used it. -/
theorem origin_of_follow {visits : List Visit} {pending : Option Survivor} {found : List Finding}
    (h : detector.follow cls method visits pending = .ok found (some survivor)) :
    (pending = some survivor ∧
        ∀ visit ∈ visits, fate survivor { visit with cls, method } = .pending) ∨
      ∃ before origin middle, visits = before ++ origin :: middle ∧
        remainsAt { origin with cls, method } = .ok (some (.copy survivor)) ∧
        ∀ visit ∈ middle, fate survivor { visit with cls, method } = .pending := by
  induction visits generalizing pending found with
  | nil =>
    cases h
    exact Or.inl ⟨rfl, fun _ hmem => absurd hmem List.not_mem_nil⟩
  | cons first rest ih =>
    obtain ⟨_, after, _, hvisit, hrest, _⟩ := Detector.follow_cons_ok h
    rcases ih hrest with ⟨rfl, hpending⟩ | ⟨before, origin, middle, rfl, horigin⟩
    · rcases visit_eq_ok hvisit with ⟨called, hremains, hcalled⟩ | hsettled
      · cases hcalled
        exact Or.inr ⟨[], first, rest, rfl, hremains, hpending⟩
      · obtain ⟨hkept, hfirst⟩ := settle_eq_some hsettled.symm
        exact Or.inl ⟨hkept, List.forall_mem_cons.2 ⟨hfirst, hpending⟩⟩
    · exact Or.inr ⟨first :: before, origin, middle, rfl, horigin⟩

end DiscardedObject

/-! ## The constructor call -/

/-- The instruction calls a constructor with `params` argument slots. -/
def Instruction.Constructs (inst : Instruction) (params : Nat) : Prop :=
  inst.opcode = .invokespecial ∧ ∃ site slots, inst.call? = some site ∧ site.name = "<init>" ∧
    callSlots site.descriptor = .ok slots ∧ slots.params = params

/-- A constructor call takes its arguments and its object.  Only a call that
is marked as static takes no object. -/
theorem Instruction.Constructs.pops_cases {inst : Instruction} {params : Nat}
    {counts : StackEffect} (h : inst.Constructs params) (hcounts : inst.stackEffect = .ok counts) :
    counts.pops = params ∨ counts.pops = params + 1 := by
  obtain ⟨hopcode, site, slots, hcall, _, hslots, rfl⟩ := h
  have heffect : inst.opcode.effect? = some .invoke := by
    rw [hopcode]
    rfl
  obtain ⟨slots', hslots', rfl⟩ := callSlots_of_stackEffect heffect hcall hcounts
  cases hslots.symm.trans hslots'
  cases hreceiver : site.kind.hasReceiver with
  | true => exact Or.inr rfl
  | false => exact Or.inl rfl

theorem DiscardedObject.remains?_eq_copy {step : Step} {params : Nat} {survivor : Survivor}
    (h : remains? step params = some (.copy survivor)) :
    ∃ allocation, step.slots[params]? = some (.fresh allocation) ∧
      step.slots[params + 1]? = some (.fresh allocation) ∧
      survivor = ⟨step.offset, step.depth - params - 1⟩ := by
  have hfresh : ∀ below allocation : Nat,
      (step.peek? below).bind Slot.allocation? = some allocation →
        step.slots[below]? = some (.fresh allocation) := by
    intro below allocation hpeek
    obtain ⟨slot, hslot, hallocation⟩ := Option.bind_eq_some_iff.1 hpeek
    rw [← Slot.eq_fresh_of_allocation? hallocation]
    exact hslot
  obtain ⟨allocation, hobject, hcopy⟩ := Option.bind_eq_some_iff.1 h
  refine ⟨allocation, hfresh _ _ hobject, ?_⟩
  simp only [beq_iff_eq] at hcopy
  split at hcopy
  · rename_i hbelow
    cases hcopy
    exact ⟨hfresh _ _ hbelow, rfl⟩
  · split at hcopy <;> cases hcopy

/-- A constructor call that leaves a survivor takes an object of which a
copy lies right below. -/
theorem DiscardedObject.copies_of_remainsAt {step : Step} {survivor : Survivor}
    (h : remainsAt step = .ok (some (.copy survivor))) :
    ∃ params allocation, step.instruction.Constructs params ∧
      step.slots[params]? = some (.fresh allocation) ∧
      step.slots[params + 1]? = some (.fresh allocation) ∧
      survivor = ⟨step.offset, step.depth - params - 1⟩ := by
  unfold remainsAt constructorCall? at h
  by_cases hopcode : step.opcode = .invokespecial
  · rw [hopcode, beq_self_eq_true, if_pos rfl] at h
    cases hcall : step.instruction.call?.filter (·.name == "<init>") with
    | none =>
      rw [hcall] at h
      cases h
    | some site =>
      obtain ⟨hsite, hname⟩ := Option.filter_eq_some_iff.1 hcall
      simp only [hcall, Option.map_some] at h
      cases hslots : callSlots site.descriptor with
      | error bad =>
        rw [hslots] at h
        cases h
      | ok slots =>
        rw [hslots] at h
        have hconstructs : step.instruction.Constructs slots.params :=
          ⟨hopcode, site, slots, hsite, eq_of_beq hname, hslots, rfl⟩
        obtain ⟨allocation, hobject, hcopy, hsurvivor⟩ := remains?_eq_copy (Except.ok.inj h)
        exact ⟨slots.params, allocation, hconstructs, hobject, hcopy, hsurvivor⟩
  · rw [if_neg fun heq => hopcode (eq_of_beq heq)] at h
    cases h

/-- A constructor that takes the object below `params` argument slots leaves
`copy` of this object on top of `base`. -/
structure LeavesCopy (params : Nat) (stack : List Entry) (copy : Entry) (base : List Entry) :
    Prop where
  taken : ∃ object birth, stack[params]? = some object ∧ object.value = .object birth ∧
    copy.value = .object birth
  below : stack.drop (params + 1) = copy :: base

theorem Tracks.leavesCopy {made : Nat → Nat} {slots : List Slot} {stack : List Entry}
    {params allocation : Nat} (h : Tracks made slots stack)
    (hobject : slots[params]? = some (.fresh allocation))
    (hcopy : slots[params + 1]? = some (.fresh allocation)) :
    ∃ copy base, LeavesCopy params stack copy base := by
  obtain ⟨object, hobject, hvalue⟩ := h params allocation hobject
  obtain ⟨copy, hcopy, hcopyValue⟩ := h (params + 1) allocation hcopy
  rw [← List.head?_drop] at hcopy
  obtain ⟨base, hbase⟩ := List.head?_eq_some_iff.1 hcopy
  exact ⟨copy, base, ⟨object, made allocation, hobject, hvalue, hcopyValue⟩, hbase⟩

/-- At a constructor call, what lies below its arguments and its object. -/
theorem Keeps.start {visit : Visit} {moment : Moment} {params : Nat} {copy : Entry}
    {base : List Entry} (h : LeavesCopy params moment.stack copy base)
    (hinst : moment.instruction = visit.instruction)
    (hdeep : params + 1 < visit.slots.length) :
    Keeps (visit.slots.length - params - 1) (copy :: base) visit moment := by
  have habove : visit.slots.length - (visit.slots.length - params - 1) = params + 1 := by omega
  have hlength := congrArg List.length h.below
  rw [List.length_drop, List.length_cons] at hlength
  refine ⟨hinst, ?_, ?_⟩
  · rw [habove]
    omega
  · rw [habove]
    exact h.below

/-! ## Discarded objects -/

/-- A class that has the method as its only one. -/
def Method.alone (method : Method) : Class where
  name := "Demo"
  majorVersion := 52
  fields := []
  methods := [method]
  uri := none

namespace DiscardedObject

variable {cls : Class} {method : Method} {front later : List Visit} {final : Visit}
  {found : List Finding} {finding : Finding}

/-- A constructor call is reported because of a `pop` or a `return`, and
control runs straight from the one to the other.  Then every execution of
the call leaves a copy of its object.  It can be run on to the `pop` or
`return`, and however it is run, it finds this copy there on top of what lay
below it at the call, and nothing else. -/
theorem discards_of_straight {pending : Option Survivor} (hascending : method.Ascending)
    (hsubroutine : ∀ inst ∈ method.code, inst.opcode ∉ Opcode.subroutine)
    (hvisits : method.walk.visits = front ++ final :: later)
    (hfront : detector.follow cls method front none = .ok found pending)
    (hfinding : finding ∈ (settle { final with cls, method } pending).2)
    (hstraight : method.Straight finding.location.offset final.instruction.offset) :
    (final.instruction.opcode = .pop ∨ final.instruction.opcode = .voidReturn) ∧
      ∃ call params, call ∈ method.code ∧ call.offset = finding.location.offset ∧
        call.Constructs params ∧
        ∀ start, method.ComesTo start → start.instruction = call →
          ∃ copy base, LeavesCopy params start.stack copy base ∧
            (∃ finish, Relation.ReflTransGen method.Continues start finish ∧
              finish.instruction = final.instruction) ∧
            ∀ finish, Relation.ReflTransGen method.Continues start finish →
              finish.instruction = final.instruction → finish.stack = copy :: base := by
  obtain ⟨survivor, rfl, hfate, rfl⟩ := mem_settle hfinding
  obtain ⟨hopcode, hdepth⟩ := discarded_of_fate hfate
  refine ⟨hopcode, ?_⟩
  rcases origin_of_follow hfront with ⟨hnone, _⟩ | ⟨before, origin, middle, rfl, hremains, hpending⟩
  · cases hnone
  obtain ⟨params, allocation, hconstructs, hobject, hcopy, rfl⟩ := copies_of_remainsAt hremains
  have hsplit : method.walk.visits = before ++ origin :: (middle ++ final :: later) := by
    simpa using hvisits
  have hvisited : origin ∈ method.walk.visits := by simp [hsplit]
  have hdeep : params + 1 < origin.slots.length := (List.getElem?_eq_some_iff.1 hcopy).1
  refine ⟨origin.instruction, params, Method.mem_code_of_visit hvisited, rfl, hconstructs, ?_⟩
  intro start hcomes hinst
  obtain ⟨made, htracks⟩ :=
    Method.tracks_of_comesTo hascending hsubroutine hvisited hcomes hinst.symm
  obtain ⟨copy, base, hleaves⟩ := htracks.leavesCopy hobject hcopy
  have hspares : ∀ visit ∈ origin :: middle, visit.Spares (origin.slots.length - params - 1) := by
    refine List.forall_mem_cons.2 ⟨?_, fun visit hmem => ?_⟩
    · have hpops : origin.effect.pops = params ∨ origin.effect.pops = params + 1 :=
        hconstructs.pops_cases (Method.counted_of_visit hvisited)
      show _ + _ ≤ _
      omega
    · have hspared : origin.slots.length - params - 1 ≤ visit.slots.length - visit.effect.pops :=
        spared_of_fate (hpending visit hmem)
      show _ + _ ≤ _
      omega
  obtain ⟨hconditional, hhandlers⟩ := hstraight.visits hascending hsplit
  obtain ⟨hends, hkeeps⟩ := (Keeps.start hleaves hinst hdeep).run hascending hsubroutine hsplit
    hspares hconditional hhandlers
  refine ⟨copy, base, hleaves, hends, ?_⟩
  intro finish hrun hfinish
  have hbelow := (hkeeps finish hrun hfinish).below
  have hnone : final.slots.length - (origin.slots.length - params - 1) = 0 :=
    Nat.sub_eq_zero_of_le (Nat.le_of_eq hdepth)
  rwa [hnone, List.drop_zero] at hbelow

instance : DecidableEq detector.State := inferInstanceAs (DecidableEq (Option Survivor))

/-- `new Integer(1);` as a statement. -/
def constructAndDrop : Method where
  name := "run"
  descriptor := "()V"
  maxStack := some 3
  code :=
    [ ⟨0, .new, .type "java/lang/Integer"⟩
    , ⟨3, 0x59, .none⟩
    , ⟨4, .iconst1, .none⟩
    , ⟨5, .invokespecial, .call ⟨.special, "java/lang/Integer", "<init>", "(I)V"⟩⟩
    , ⟨8, .pop, .none⟩
    , ⟨9, .voidReturn, .none⟩ ]
  lines := []
  handlers := []

/-- The constructor call of `constructAndDrop`, just before it is executed. -/
def constructing : Moment where
  instruction := ⟨5, .invokespecial, .call ⟨.special, "java/lang/Integer", "<init>", "(I)V"⟩⟩
  stack := [⟨.other, some 4⟩, ⟨.object 0, some 0⟩, ⟨.object 0, some 0⟩]
  clock := 1

/-- The `pop` finds the object that the constructor was called with. -/
theorem constructAndDrop_discards :
    detector.follow constructAndDrop.alone constructAndDrop
        (constructAndDrop.walk.visits.take 4) none = .ok [] (some ⟨5, 1⟩) ∧
      constructAndDrop.Straight 5 8 ∧ constructAndDrop.ComesTo constructing ∧
      ∃ finish, Relation.ReflTransGen constructAndDrop.Continues constructing finish ∧
        finish.instruction = ⟨8, .pop, .none⟩ ∧ finish.stack = [⟨.object 0, some 0⟩] := by
  have hascending : constructAndDrop.Ascending := by decide
  have hsubroutine : ∀ inst ∈ constructAndDrop.code, inst.opcode ∉ Opcode.subroutine := by decide
  have hvisits : constructAndDrop.walk.visits = constructAndDrop.walk.visits.take 4 ++
      ⟨⟨8, .pop, .none⟩, [.unknown], ⟨1, 0⟩⟩ :: constructAndDrop.walk.visits.drop 5 := by
    decide +kernel
  have hfollow : detector.follow constructAndDrop.alone constructAndDrop
      (constructAndDrop.walk.visits.take 4) none = .ok [] (some ⟨5, 1⟩) := by decide +kernel
  have hstraight : constructAndDrop.Straight 5 8 := ⟨by decide, by decide⟩
  have hcomes : constructAndDrop.ComesTo constructing := by
    let created : Entry := ⟨.object 0, some 0⟩
    have hnew : constructAndDrop.Continues ⟨⟨0, .new, .type "java/lang/Integer"⟩, [], 0⟩
        ⟨⟨3, 0x59, .none⟩, [created], 1⟩ :=
      .next (by decide) (by decide) (.allocate (by decide))
    have hcopy : Instruction.Performs ⟨3, 0x59, .none⟩ [created] 1 [created, created] 1 :=
      .dup (show _ = some (Effect.dup 1 0) by decide) (by decide)
    have hdup : constructAndDrop.Continues ⟨⟨3, 0x59, .none⟩, [created], 1⟩
        ⟨⟨4, .iconst1, .none⟩, [created, created], 1⟩ :=
      .next (by decide) (by decide) hcopy
    have hone : constructAndDrop.Continues ⟨⟨4, .iconst1, .none⟩, [created, created], 1⟩
        constructing :=
      .next (by decide) (by decide) (Instruction.performs_of_others? (by decide))
    exact ⟨⟨0, .new, .type "java/lang/Integer"⟩, rfl,
      .tail (.tail (.tail .refl (.next hnew)) (.next hdup)) (.next hone)⟩
  obtain ⟨_, call, params, hcall, hoffset, hconstructs, hruns⟩ :=
    discards_of_straight hascending hsubroutine hvisits hfollow (List.mem_singleton_self _)
      hstraight
  have honly : ∀ inst ∈ constructAndDrop.code, inst.offset = 5 →
      inst = constructing.instruction := by decide
  obtain rfl := honly call hcall hoffset
  obtain ⟨copy, base, hleaves, ⟨finish, hrun, hfinish⟩, hstack⟩ := hruns _ hcomes rfl
  refine ⟨hfollow, hstraight, hcomes, finish, hrun, hfinish, ?_⟩
  obtain ⟨_, site, slots, hcall, _, hslots, rfl⟩ := hconstructs
  cases hcall
  have hcount : callSlots "(I)V" = .ok ⟨1, 0⟩ := by decide +kernel
  cases hslots.symm.trans hcount
  rw [hstack finish hrun hfinish, ← hleaves.below]
  rfl

/-- A method that returns a new object, or drops `null` and returns `null`.
Where it drops `null`, at the offset 16, the new object is elsewhere. -/
def returnedOrNull : Method where
  name := "run"
  descriptor := "(Z)Ljava/lang/Object;"
  maxStack := some 2
  code :=
    [ ⟨0, 0x01, .none⟩
    , ⟨1, 0x1b, .none⟩
    , ⟨2, 0x99, .branch 16⟩
    , ⟨5, .pop, .none⟩
    , ⟨6, .new, .type "java/lang/Object"⟩
    , ⟨9, 0x59, .none⟩
    , ⟨10, .invokespecial, .call ⟨.special, "java/lang/Object", "<init>", "()V"⟩⟩
    , ⟨13, .goto, .branch 18⟩
    , ⟨16, .pop, .none⟩
    , ⟨17, 0x01, .none⟩
    , ⟨18, 0xb0, .none⟩ ]
  lines := []
  handlers := []

/-- Nothing has been allocated on the way to the other `pop`. -/
theorem returnedOrNull_clock {moment : Moment} (h : returnedOrNull.ComesTo moment) :
    moment.instruction ∈ returnedOrNull.code ∧
      (moment.instruction.offset ∈ [0, 1, 2, 16, 17] → moment.clock = 0) := by
  have hnext : ∀ inst ∈ returnedOrNull.code, ∀ following ∈ returnedOrNull.code,
      [inst, following] <:+: returnedOrNull.code → inst.opcode ∉ Opcode.unconditional →
        following.offset ∈ [0, 1, 2, 16, 17] →
          inst.offset ∈ [0, 1, 2, 16, 17] ∧ inst.opcode.effect? ≠ some .allocate := by
    decide +kernel
  have hjump : ∀ inst ∈ returnedOrNull.code, ∀ destination ∈ returnedOrNull.code,
      destination.offset ∈ inst.targets → destination.offset ∈ [0, 1, 2, 16, 17] →
        inst.offset ∈ [0, 1, 2, 16, 17] ∧ inst.opcode.effect? ≠ some .allocate := by
    decide +kernel
  obtain ⟨first, hfirst, hsteps⟩ := h
  induction hsteps with
  | refl => exact ⟨List.mem_of_mem_head? hfirst, fun _ => rfl⟩
  | tail _ hstep ih =>
    obtain ⟨hdeclared, hclock⟩ := ih
    cases hstep with
    | next continues =>
      obtain ⟨adjacent, conditional, performs⟩ := continues
      have hfollowing := adjacent.subset (List.mem_cons_of_mem _ (List.mem_singleton_self _))
      refine ⟨hfollowing, fun hoffset => ?_⟩
      obtain ⟨hearly, hkeeps⟩ := hnext _ hdeclared _ hfollowing adjacent conditional hoffset
      rw [performs.clock_eq hkeeps]
      exact hclock hearly
    | jump declared target performs =>
      refine ⟨declared, fun hoffset => ?_⟩
      obtain ⟨hearly, hkeeps⟩ := hjump _ hdeclared _ declared target hoffset
      rw [performs.clock_eq hkeeps]
      exact hclock hearly
    | caught _ isHandler => cases isHandler

/-- The object is reported at the `pop` of `null`.  Control comes to this `pop`,
but never with an object that the method has allocated. -/
theorem returnedOrNull_reported :
    returnedOrNull.Ascending ∧
      (analyzeClass catalog returnedOrNull.alone).findings =
        [discarded.report (returnedOrNull.alone.locate returnedOrNull 10) none] ∧
      (∃ front final later pending, returnedOrNull.walk.visits = front ++ final :: later ∧
        detector.follow returnedOrNull.alone returnedOrNull front none = .ok [] pending ∧
        final.instruction = ⟨16, .pop, .none⟩ ∧
        (settle { final with cls := returnedOrNull.alone, method := returnedOrNull } pending).2 =
          [discarded.report (returnedOrNull.alone.locate returnedOrNull 10) none]) ∧
      returnedOrNull.ComesTo ⟨⟨16, .pop, .none⟩, [⟨.other, some 0⟩], 0⟩ ∧
      ∀ moment, returnedOrNull.ComesTo moment → moment.instruction.offset = 16 →
        ∀ entry ∈ moment.stack, entry.value = .other := by
  refine ⟨by decide, by decide +kernel, ?_, ?_, ?_⟩
  · refine ⟨returnedOrNull.walk.visits.take 8, ⟨⟨16, .pop, .none⟩, [.constant .null], ⟨1, 0⟩⟩,
      returnedOrNull.walk.visits.drop 9, some ⟨10, 1⟩, ?_, ?_, rfl, ?_⟩
    · decide +kernel
    · decide +kernel
    · decide +kernel
  · have hnull : returnedOrNull.Continues ⟨⟨0, 0x01, .none⟩, [], 0⟩
        ⟨⟨1, 0x1b, .none⟩, [⟨.other, some 0⟩], 0⟩ :=
      .next (by decide) (by decide) (Instruction.performs_of_others? (by decide))
    have hload : returnedOrNull.Continues ⟨⟨1, 0x1b, .none⟩, [⟨.other, some 0⟩], 0⟩
        ⟨⟨2, 0x99, .branch 16⟩, [⟨.other, some 1⟩, ⟨.other, some 0⟩], 0⟩ :=
      .next (by decide) (by decide) (Instruction.performs_of_others? (by decide))
    have hjump : returnedOrNull.Proceeds
        ⟨⟨2, 0x99, .branch 16⟩, [⟨.other, some 1⟩, ⟨.other, some 0⟩], 0⟩
        ⟨⟨16, .pop, .none⟩, [⟨.other, some 0⟩], 0⟩ :=
      .jump (by decide) (by decide) (Instruction.performs_of_others? (by decide))
    exact ⟨⟨0, 0x01, .none⟩, rfl, .tail (.tail (.tail .refl (.next hnull)) (.next hload)) hjump⟩
  · intro moment hcomes hoffset entry hentry
    have hclock : moment.clock = 0 :=
      (returnedOrNull_clock hcomes).2 (by simp [hoffset])
    have hexists := Method.existsAt_of_comesTo hcomes entry hentry
    cases hvalue : entry.value with
    | object birth =>
      have hlt := hexists birth hvalue
      omega
    | other => rfl

end DiscardedObject

end BytecodeLint
