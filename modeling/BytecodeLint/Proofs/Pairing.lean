import BytecodeLint.Proofs.Discard

/-!
# Where the value of a boxing pair comes from

The detector reports an instruction by what the instruction before it in the
code does.  A jump can bring another value.  So the detector remembers where
some jumps go, and it reports nothing there.

`made_of_report` says when this is enough: if it remembers every jump to an
instruction that it reports, then there is no such jump.  So control comes
from the instruction before, on every path, and the value on top of the
stack is the one that this instruction left.

It is not always enough.  Behind an instruction that boxes, unboxes or
parses, the detector takes no notice of a jump.  `choose` is a method where
a value of another type is brought by such a jump.

There are five groups.

* What the state says of the visits before: `state_of_follow`.
* The jumps that are remembered: `unreported_of_remembers`.
* The way to an instruction to which nothing jumps.
* `Instruction.Produces`: the value on top of the stack comes from the
  instruction.
* The results.
-/

namespace BytecodeLint

namespace Boxing

variable {cls : Class} {method : Method} {step : Step} {progress left final : Progress}
  {found : List Finding} {finding : Finding} {visits : List Visit}

/-! ## The state -/

/-- In this state a pair may begin, and a jump is remembered. -/
def State.Opens : State → Prop
  | nothing | zeroOrOne | booleanObject => True
  | _ => False

instance : DecidablePred State.Opens
  | .nothing | .zeroOrOne | .booleanObject => .isTrue trivial
  | .unboxed _ | .parsed _ | .boxed _ | .boxedString _ => .isFalse id

theorem State.advance_cases (state : State) (step : Step) :
    state.advance step = .nothing ∨ state.advance step = after step := by
  cases state with
  | nothing | zeroOrOne | booleanObject => exact Or.inr rfl
  | _ => exact Or.inl rfl

/-- Behind a visit the state is what the instruction of the visit leaves, or
nothing. -/
theorem state_of_visit (h : visit step progress = .ok found left) :
    left.state = .nothing ∨ left.state = State.after step := by
  rw [visit_eq] at h
  split at h
  · cases h
    exact Or.inl rfl
  · cases h
    exact progress.state.advance_cases step

/-- So the state behind many visits is a matter of the last one. -/
theorem state_of_follow (h : detector.follow cls method visits progress = .ok found final)
    (hstart : progress.state = .nothing) :
    final.state = .nothing ∨ ∃ earlier last, visits = earlier ++ [last] ∧
      final.state = State.after { last with cls, method } := by
  rcases List.eq_nil_or_concat' visits with rfl | ⟨earlier, last, rfl⟩
  · cases h
    exact Or.inl hstart
  · obtain ⟨_, middle, _, _, hlast, _⟩ := Detector.follow_append_ok h
    obtain ⟨_, _, _, hvisit, hnil, _⟩ := Detector.follow_cons_ok hlast
    cases hnil
    rcases state_of_visit hvisit with hnothing | hafter
    · exact Or.inl hnothing
    · exact Or.inr ⟨earlier, last, rfl, hafter⟩

/-- A visit that reports is not one that a remembered jump leads to, and its
instruction breaks a rule in the state before it. -/
theorem rule_of_visit (h : visit step progress = .ok found left) (hfinding : finding ∈ found) :
    step.offset ∉ progress.joins ∧ ∃ rule, progress.state.rule? step.instruction = some rule ∧
      finding = step.finding rule none := by
  rw [visit_eq] at h
  split at h
  · cases h
    cases hfinding
  · rename_i hjoin
    cases h
    refine ⟨fun hmem => hjoin (List.contains_iff_mem.2 hmem), ?_⟩
    obtain ⟨rule, hrule, hreported⟩ := Option.map_eq_some_iff.1 (Option.mem_toList.1 hfinding)
    exact ⟨rule, hrule, hreported.symm⟩

/-! ## Jumps that are remembered -/

/-- The detector remembers where the jump at a visit goes: it is a `goto`
forward that carries a value, no jump before it leads to it, and the
instruction before it leaves a state in which a pair may begin. -/
structure Remembers (cls : Class) (method : Method) (before : List Visit) (jump : Visit)
    (target : Nat) : Prop where
  isGoto : jump.instruction.opcode.isGoto = true
  operand : jump.instruction.operand = .branch target
  ahead : jump.instruction.offset < target
  carries : jump.slots ≠ []
  unjumped : ∀ source ∈ before, jump.instruction.offset ∉ source.instruction.targets
  opens : ∀ earlier last, before = earlier ++ [last] →
    (State.after { last with cls, method }).Opens

variable {target : Nat}

/-- The states in which a jump is remembered are all alike. -/
theorem State.joinTarget?_eq (state : State) (step : Step) :
    state.joinTarget? step = if state.Opens then nothing.joinTarget? step else none := by
  cases state with
  | nothing | zeroOrOne | booleanObject => exact (if_pos trivial).symm
  | _ => exact (if_neg id).symm

theorem State.mem_targets_of_joinTarget? {state : State} (h : state.joinTarget? step = some target) :
    target ∈ step.instruction.targets := by
  rw [joinTarget?_eq] at h
  by_cases hopens : state.Opens
  · rw [if_pos hopens] at h
    unfold joinTarget? at h
    simp only at h
    split at h
    · rename_i destination hoperand
      split at h
      · cases h
        rw [Instruction.targets, hoperand]
        exact List.mem_singleton_self target
      · cases h
    · cases h
  · rw [if_neg hopens] at h
    cases h

theorem State.joinTarget?_of_opens {state : State} (hopens : state.Opens)
    (hgoto : step.opcode.isGoto = true) (hoperand : step.instruction.operand = .branch target)
    (hcarries : step.slots ≠ []) : state.joinTarget? step = some target := by
  have hdepth : (step.depth != 0) = true := by simpa [Step.depth] using hcarries
  rw [joinTarget?_eq, if_pos hopens]
  simp only [joinTarget?, hoperand, hgoto, hdepth, Bool.and_self, if_true]

theorem mem_joins_of_joinTarget? (h : visit step progress = .ok found left)
    (hfree : step.offset ∉ progress.joins)
    (htarget : progress.state.joinTarget? step = some target) : target ∈ left.joins := by
  rw [visit_eq, if_neg fun hcontains => hfree (List.contains_iff_mem.1 hcontains)] at h
  cases h
  exact List.mem_append_left _ (Option.mem_toList.2 htarget)

/-- A place is remembered until it is visited. -/
theorem mem_joins_of_visit (h : visit step progress = .ok found left)
    (hmem : target ∈ progress.joins) (hne : step.offset ≠ target) : target ∈ left.joins := by
  rw [visit_eq] at h
  split at h
  · cases h
    exact List.mem_filter.2 ⟨hmem, by simpa using hne.symm⟩
  · cases h
    exact List.mem_append_right _ hmem

theorem mem_joins_of_follow (h : detector.follow cls method visits progress = .ok found final)
    (hmem : target ∈ progress.joins) (hne : ∀ visit ∈ visits, visit.instruction.offset ≠ target) :
    target ∈ final.joins := by
  induction visits generalizing progress found with
  | nil =>
    cases h
    exact hmem
  | cons first rest ih =>
    obtain ⟨_, middle, _, hvisit, hrest, _⟩ := Detector.follow_cons_ok h
    obtain ⟨hfirst, hlater⟩ := List.forall_mem_cons.1 hne
    exact ih hrest (mem_joins_of_visit hvisit hmem hfirst) hlater

theorem jump_of_visit (h : visit step progress = .ok found left) (hmem : target ∈ left.joins) :
    target ∈ progress.joins ∨ target ∈ step.instruction.targets := by
  rw [visit_eq] at h
  split at h
  · cases h
    exact Or.inl (List.mem_filter.1 hmem).1
  · cases h
    rcases List.mem_append.1 hmem with hnew | hold
    · exact Or.inr (State.mem_targets_of_joinTarget? (Option.mem_toList.1 hnew))
    · exact Or.inl hold

/-- Only the targets of jumps are remembered. -/
theorem jumps_of_mem_joins (h : detector.follow cls method visits progress = .ok found final)
    (hmem : target ∈ final.joins) :
    target ∈ progress.joins ∨ ∃ source ∈ visits, target ∈ source.instruction.targets := by
  induction visits generalizing progress found with
  | nil =>
    cases h
    exact Or.inl hmem
  | cons first rest ih =>
    obtain ⟨_, middle, _, hvisit, hrest, _⟩ := Detector.follow_cons_ok h
    rcases ih hrest with hmiddle | ⟨source, hsource, htarget⟩
    · rcases jump_of_visit hvisit hmiddle with hold | htarget
      · exact Or.inl hold
      · exact Or.inr ⟨first, List.mem_cons_self .., htarget⟩
    · exact Or.inr ⟨source, List.mem_cons_of_mem _ hsource, htarget⟩

/-- What the detector remembers, it knows behind the jump. -/
theorem Remembers.mem_joins {before : List Visit} {jump : Visit}
    (h : Remembers cls method before jump target)
    (hfollow : detector.follow cls method (before ++ [jump]) ⟨.nothing, []⟩ = .ok found progress) :
    target ∈ progress.joins := by
  obtain ⟨_, middle, _, hbefore, hlast, _⟩ := Detector.follow_append_ok hfollow
  obtain ⟨_, _, _, hvisit, hnil, _⟩ := Detector.follow_cons_ok hlast
  cases hnil
  have hopens : middle.state.Opens := by
    rcases state_of_follow hbefore rfl with hnothing | ⟨earlier, last, hsplit, hafter⟩
    · rw [hnothing]
      trivial
    · rw [hafter]
      exact h.opens earlier last hsplit
  have hfree : jump.instruction.offset ∉ middle.joins := by
    intro hmem
    rcases jumps_of_mem_joins hbefore hmem with hnone | ⟨source, hsource, htarget⟩
    · cases hnone
    · exact h.unjumped source hsource htarget
  refine mem_joins_of_joinTarget? hvisit hfree ?_
  exact State.joinTarget?_of_opens hopens h.isGoto h.operand h.carries

/-- Nothing is reported where a jump leads that is remembered. -/
theorem unreported_of_remembers {front rest : List Visit} {jump : Visit}
    (h : Remembers cls method front jump step.offset)
    (hrest : ∀ visit ∈ rest, visit.instruction.offset ≠ step.offset)
    (hfront : detector.follow cls method (front ++ jump :: rest) ⟨.nothing, []⟩ =
      .ok found progress)
    {reported : List Finding} (hvisit : visit step progress = .ok reported left) :
    reported = [] := by
  have hsplit : front ++ jump :: rest = (front ++ [jump]) ++ rest := by simp
  rw [hsplit] at hfront
  obtain ⟨_, middle, _, hjump, hlater, _⟩ := Detector.follow_append_ok hfront
  have hmem := mem_joins_of_follow hlater (h.mem_joins hjump) hrest
  refine List.eq_nil_iff_forall_not_mem.2 fun finding hfinding => ?_
  exact (rule_of_visit hvisit hfinding).1 hmem

end Boxing

/-! ## The way to an instruction to which nothing jumps -/

/-- Control comes to such an instruction only from the one before it. -/
theorem Method.exists_continues {method : Method} {earlier later : List Visit} {last visit : Visit}
    {moment : Moment} (hascending : method.Ascending)
    (hvisits : method.walk.visits = earlier ++ last :: visit :: later)
    (hjumps : ∀ source ∈ method.code, visit.instruction.offset ∉ source.targets)
    (hhandler : method.isHandler visit.instruction.offset = false)
    (h : method.ComesTo moment) (hinst : moment.instruction = visit.instruction) :
    ∃ source, method.ComesTo source ∧ source.instruction = last.instruction ∧
      method.Continues source moment := by
  have hsplit : method.walk.visits = (earlier ++ [last]) ++ visit :: later := by simpa using hvisits
  obtain ⟨_, _, _, _, hcode, _⟩ := exists_trail hsplit
  obtain ⟨first, hfirst, hsteps⟩ := h
  cases hsteps with
  | refl =>
    have hnil := hascending.nil_of_first hcode (hfirst.trans (congrArg some hinst))
    simp at hnil
  | @tail source _ hsteps hstep =>
    have hcomes : method.ComesTo source := ⟨first, hfirst, hsteps⟩
    cases hstep with
    | next continues =>
      refine ⟨source, hcomes, ?_, continues⟩
      have hadjacent := continues.adjacent
      rw [hinst] at hadjacent
      obtain ⟨_, last', hlast, hsame⟩ := hascending.last_before hcode hadjacent
      obtain ⟨_, hlast⟩ := List.append_inj' hlast rfl
      cases hlast
      exact hsame.symm
    | jump _ target =>
      refine absurd ?_ (hjumps _ (mem_code_of_comesTo hcomes))
      rw [← hinst]
      exact target
    | caught _ isHandler =>
      simp only at hinst
      rw [hinst, hhandler] at isHandler
      cases isHandler

/-! ## Where the top of the stack comes from -/

/-- The instruction takes `stack` to `after` and is where the value on top of
it comes from: it put this value there, or it is the constructor call of
this object. -/
inductive Instruction.Produces (inst : Instruction) (stack after : List Entry) : Prop
  | made {top rest} (top_eq : after = top :: rest) (maker : top.maker = some inst.offset)
  | constructed {params object birth top rest} (constructs : inst.Constructs params)
      (taken : stack[params]? = some object) (value : object.value = .object birth)
      (top_eq : after = top :: rest) (same : top.value = .object birth)

/-- A constructor call without a result leaves the copy of its object on top. -/
theorem Instruction.Constructs.produces {inst : Instruction} {params : Nat} {counts : StackEffect}
    {stack after base : List Entry} {copy : Entry} {clock later : Nat} (h : inst.Constructs params)
    (hcounts : inst.stackEffect = .ok counts) (hnone : counts.pushes = 0)
    (hcopy : LeavesCopy params stack copy base) (hperforms : inst.Performs stack clock after later) :
    inst.Produces stack after := by
  have hpops := h.pops_cases hcounts
  obtain ⟨effect, heffect, hcounts⟩ := stackEffect_ok hcounts
  obtain ⟨_, heads, hheads, rfl⟩ := hperforms.shape heffect hcounts
  obtain rfl := List.length_eq_zero_iff.1 (hheads.trans hnone)
  obtain ⟨⟨object, birth, hobject, hvalue, hsame⟩, hbelow⟩ := hcopy
  rcases hpops with hpops | hpops
  · rw [hpops, List.nil_append]
    have hhead : (stack.drop params).head? = some object := (List.head?_drop ..).trans hobject
    obtain ⟨rest, hrest⟩ := List.head?_eq_some_iff.1 hhead
    exact .constructed h hobject hvalue hrest hvalue
  · rw [hpops, List.nil_append]
    exact .constructed h hobject hvalue hbelow hsame

/-! ## Reports and the values that they are about -/

namespace Boxing

variable {cls : Class} {method : Method} {step : Step} {finding : Finding}

theorem State.opcode_of_after (h : State.after step ≠ .nothing) :
    step.opcode ∈ [Opcode.iconst0, .iconst1, .getstatic, .invokevirtual, .invokespecial,
      .invokestatic] := by
  by_contra hother
  refine h ?_
  simp only [List.mem_cons, List.not_mem_nil, or_false, not_or] at hother
  obtain ⟨hzero, hone, hget, hvirtual, hspecial, hstatic⟩ := hother
  simp only [after, Bool.or_eq_true, beq_iff_eq, hzero, hone, hget, hvirtual, hspecial, hstatic,
    or_self, if_false]
  split <;> rfl

/-- The instructions that may begin a pair put values of their own. -/
theorem State.computes_of_after (h : State.after step ≠ .nothing) :
    ∃ effect, step.instruction.opcode.effect? = some effect ∧ effect.computes = true := by
  have hcomputes : [Opcode.iconst0, .iconst1, .getstatic, .invokevirtual, .invokespecial,
      .invokestatic].all (·.effect?.any Effect.computes) = true := by decide
  exact (Option.any_eq_true _ _).1 (List.all_eq_true.1 hcomputes _ (opcode_of_after h))

/-- An instruction that begins a pair leaves the value of the pair on top, if
it puts a value or constructs an object of which there is a copy. -/
theorem produces_of_continues {maker : Visit} {source moment : Moment}
    (hascending : method.Ascending)
    (hsubroutine : ∀ inst ∈ method.code, inst.opcode ∉ Opcode.subroutine)
    (hmaker : maker ∈ method.walk.visits)
    (hbegins : State.after { maker with cls, method } ≠ .nothing)
    (hputs : 0 < maker.effect.pushes ∨ ∃ survivor,
      DiscardedObject.remainsAt { maker with cls, method } = .ok (some (.copy survivor)))
    (hsource : method.ComesTo source) (hfrom : source.instruction = maker.instruction)
    (hcontinues : method.Continues source moment) :
    maker.instruction.Produces source.stack moment.stack := by
  have hcounted : maker.Counted := Method.counted_of_visit hmaker
  obtain ⟨counted, hcountedEffect, hcounts⟩ := Instruction.stackEffect_ok hcounted
  obtain ⟨effect, heffect, hcomputes⟩ := State.computes_of_after hbegins
  cases hcountedEffect.symm.trans heffect
  have hperforms := hcontinues.performs
  rw [hfrom] at hperforms
  by_cases hpushes : 0 < maker.effect.pushes
  · obtain ⟨top, rest, htop, hmade⟩ := hperforms.made heffect hcomputes hcounts hpushes
    exact .made htop hmade
  · obtain ⟨survivor, hremains⟩ := hputs.resolve_left hpushes
    obtain ⟨params, allocation, hconstructs, hobject, hcopy, _⟩ :=
      DiscardedObject.copies_of_remainsAt hremains
    obtain ⟨made, htracks⟩ :=
      Method.tracks_of_comesTo hascending hsubroutine hmaker hsource hfrom.symm
    obtain ⟨copy, base, hleaves⟩ := htracks.leavesCopy hobject hcopy
    exact hconstructs.produces hcounted (Nat.eq_zero_of_not_pos hpushes) hleaves hperforms

/-- An instruction is reported, and the detector remembers every jump to it.
Then on every path control comes to it from the instruction before, with
which it breaks the rule, and the top of the stack comes from there. -/
theorem made_of_report {found : List Finding} {last : Progress} (hascending : method.Ascending)
    (hsubroutine : ∀ inst ∈ method.code, inst.opcode ∉ Opcode.subroutine)
    (hfound : detector.follow cls method method.walk.visits ⟨.nothing, []⟩ = .ok found last)
    (hfinding : finding ∈ found)
    (hhandler : method.isHandler finding.location.offset = false)
    (hjumps : ∀ source ∈ method.code, finding.location.offset ∈ source.targets →
      ∃ before jump rest, method.walk.visits = before ++ jump :: rest ∧
        jump.instruction = source ∧ Remembers cls method before jump finding.location.offset) :
    ∃ earlier maker visit later rule,
      method.walk.visits = earlier ++ maker :: visit :: later ∧
      (State.after { maker with cls, method }).rule? visit.instruction = some rule ∧
      finding = ({ visit with cls, method } : Step).finding rule none ∧
      ∀ moment, method.ComesTo moment → moment.instruction = visit.instruction →
        ∃ source, method.ComesTo source ∧ source.instruction = maker.instruction ∧
          method.Continues source moment ∧
          ((0 < maker.effect.pushes ∨ ∃ survivor,
              DiscardedObject.remainsAt { maker with cls, method } = .ok (some (.copy survivor))) →
            maker.instruction.Produces source.stack moment.stack) := by
  obtain ⟨front, visit, later, _, progress, _, first, hvisits, hfront, hvisit, hfirst⟩ :=
    Detector.mem_follow hfound hfinding
  obtain ⟨_, rule, hrule, rfl⟩ := rule_of_visit hvisit hfirst
  have hunjumped : ∀ source ∈ method.code, visit.instruction.offset ∉ source.targets := by
    intro source hsource htarget
    obtain ⟨before, jump, rest, hsplit, _, hremembers⟩ := hjumps source hsource htarget
    obtain ⟨between, rfl⟩ := hascending.exists_between hsplit hvisits hremembers.ahead
    have hbefore := (hascending.lt_of_visits hvisits).1
    have hnone := unreported_of_remembers hremembers
      (fun behind hmem => Nat.ne_of_lt (hbefore behind (by simp [hmem]))) hfront hvisit
    rw [hnone] at hfirst
    cases hfirst
  rcases state_of_follow hfront rfl with hnothing | ⟨earlier, maker, rfl, hafter⟩
  · rw [hnothing] at hrule
    cases hrule
  rw [hafter] at hrule
  have hsplit : method.walk.visits = earlier ++ maker :: visit :: later := by simpa using hvisits
  have hmaker : maker ∈ method.walk.visits := by simp [hsplit]
  refine ⟨earlier, maker, visit, later, rule, hsplit, hrule, rfl, ?_⟩
  intro moment hcomes hinst
  obtain ⟨source, hsource, hfrom, hcontinues⟩ :=
    Method.exists_continues hascending hsplit hunjumped hhandler hcomes hinst
  refine ⟨source, hsource, hfrom, hcontinues, fun hputs => ?_⟩
  have hbegins : State.after { maker with cls, method } ≠ .nothing := by
    intro hnothing
    rw [hnothing] at hrule
    cases hrule
  exact produces_of_continues hascending hsubroutine hmaker hbegins hputs hsource hfrom hcontinues

instance : DecidableEq detector.State := inferInstanceAs (DecidableEq Progress)

def valueOfInteger (offset : Nat) : Instruction :=
  ⟨offset, .invokestatic,
    .call ⟨.static, "java/lang/Integer", "valueOf", "(I)Ljava/lang/Integer;"⟩⟩

/-- A call that takes a number out of its wrapper. -/
def unboxing (offset : Nat) (owner name descriptor : String) : Instruction :=
  ⟨offset, .invokevirtual, .call ⟨.virtual, owner, name, descriptor⟩⟩

/-- A method that takes a number out of its wrapper and wraps it again. -/
def rebox : Method where
  name := "copy"
  descriptor := "(Ljava/lang/Integer;)Ljava/lang/Integer;"
  maxStack := some 1
  code :=
    [ ⟨0, 0x2a, .localVar 0⟩
    , unboxing 1 "java/lang/Integer" "intValue" "()I"
    , valueOfInteger 4
    , ⟨7, 0xb0, .none⟩ ]
  lines := []
  handlers := []

theorem rebox_made :
    detector.follow rebox.alone rebox rebox.walk.visits ⟨.nothing, []⟩ =
        .ok [unboxedToValueOf.report (rebox.alone.locate rebox 4) none]
          ⟨.nothing, []⟩ ∧
      rebox.ComesTo ⟨valueOfInteger 4, [⟨.other, some 1⟩], 0⟩ ∧
      ∃ source, rebox.ComesTo source ∧
        source.instruction = unboxing 1 "java/lang/Integer" "intValue" "()I" ∧
        source.instruction.Produces source.stack [⟨.other, some 1⟩] := by
  have hascending : rebox.Ascending := by decide
  have hsubroutine : ∀ inst ∈ rebox.code, inst.opcode ∉ Opcode.subroutine := by decide
  have hfollow : detector.follow rebox.alone rebox rebox.walk.visits
      ⟨.nothing, []⟩ = .ok [unboxedToValueOf.report (rebox.alone.locate rebox 4)
        none] ⟨.nothing, []⟩ := by decide +kernel
  have hcomes : rebox.ComesTo ⟨valueOfInteger 4, [⟨.other, some 1⟩], 0⟩ := by
    have hload : rebox.Continues ⟨⟨0, 0x2a, .localVar 0⟩, [], 0⟩
        ⟨unboxing 1 "java/lang/Integer" "intValue" "()I", [⟨.other, some 0⟩], 0⟩ :=
      .next (by decide) (by decide) (Instruction.performs_of_others? (by decide))
    have hunbox : rebox.Continues
        ⟨unboxing 1 "java/lang/Integer" "intValue" "()I", [⟨.other, some 0⟩], 0⟩
        ⟨valueOfInteger 4, [⟨.other, some 1⟩], 0⟩ :=
      .next (by decide) (by decide) (Instruction.performs_of_others? (by decide +kernel))
    exact ⟨⟨0, 0x2a, .localVar 0⟩, rfl, .tail (.tail .refl (.next hload)) (.next hunbox)⟩
  have hunjumped : ∀ source ∈ rebox.code, 4 ∉ source.targets := by decide
  obtain ⟨earlier, maker, visit, later, rule, hsplit, _, hfinding, hpaths⟩ :=
    made_of_report hascending hsubroutine hfollow (List.mem_singleton_self _) (by decide)
      fun source hsource htarget => absurd htarget (hunjumped source hsource)
  have hoffset : 4 = visit.instruction.offset :=
    congrArg (fun finding : Finding => finding.location.offset) hfinding
  have hpair : ∀ inst ∈ rebox.code, ∀ following ∈ rebox.code,
      [inst, following] <:+: rebox.code → 4 = following.offset →
        inst = unboxing 1 "java/lang/Integer" "intValue" "()I" ∧ following = valueOfInteger 4 := by
    decide
  have hadjacent := Method.adjacent_next hsplit
  obtain ⟨hmaker, hvisit⟩ := hpair _ (hadjacent.subset (by simp)) _ (hadjacent.subset (by simp))
    hadjacent hoffset
  obtain ⟨source, hsource, hfrom, _, hproduces⟩ := hpaths _ hcomes hvisit.symm
  have hputs : ∀ visit ∈ rebox.walk.visits, visit.instruction.offset = 1 →
      0 < visit.effect.pushes := by decide +kernel
  refine ⟨hfollow, hcomes, source, hsource, hfrom.trans hmaker, ?_⟩
  rw [hfrom]
  refine hproduces (Or.inl (hputs maker (by simp [hsplit]) ?_))
  rw [hmaker]
  rfl

/-- A method that takes the number out of a `Short` or out of an `Integer`,
and wraps it as an `Integer`. -/
def choose : Method where
  name := "choose"
  descriptor := "(Ljava/lang/Short;Ljava/lang/Integer;Z)Ljava/lang/Integer;"
  maxStack := some 1
  code :=
    [ ⟨0, 0x1c, .localVar 2⟩
    , ⟨1, 0x99, .branch 11⟩
    , ⟨4, 0x2a, .localVar 0⟩
    , unboxing 5 "java/lang/Short" "shortValue" "()S"
    , ⟨8, .goto, .branch 15⟩
    , ⟨11, 0x2b, .localVar 1⟩
    , unboxing 12 "java/lang/Integer" "intValue" "()I"
    , valueOfInteger 15
    , ⟨18, 0xb0, .none⟩ ]
  lines := []
  handlers := []

/-- The call of `valueOf` is reported, and control comes to it with the value
that was taken out of a `Short`, with which it breaks no rule. -/
theorem choose_reported :
    choose.Ascending ∧
      (analyzeClass catalog choose.alone).findings =
        [unboxedToValueOf.report (choose.alone.locate choose 15) none] ∧
      (∀ visit ∈ choose.walk.visits, visit.instruction.offset = 5 →
        (State.after { visit with cls := choose.alone, method := choose }).rule?
          (valueOfInteger 15) = none) ∧
      choose.ComesTo ⟨valueOfInteger 15, [⟨.other, some 5⟩], 0⟩ := by
  refine ⟨by decide, by decide +kernel, by decide +kernel, ?_⟩
  have htest : choose.Continues ⟨⟨0, 0x1c, .localVar 2⟩, [], 0⟩
      ⟨⟨1, 0x99, .branch 11⟩, [⟨.other, some 0⟩], 0⟩ :=
    .next (by decide) (by decide) (Instruction.performs_of_others? (by decide))
  have henter : choose.Continues ⟨⟨1, 0x99, .branch 11⟩, [⟨.other, some 0⟩], 0⟩
      ⟨⟨4, 0x2a, .localVar 0⟩, [], 0⟩ :=
    .next (by decide) (by decide) (Instruction.performs_of_others? (by decide))
  have hload : choose.Continues ⟨⟨4, 0x2a, .localVar 0⟩, [], 0⟩
      ⟨unboxing 5 "java/lang/Short" "shortValue" "()S", [⟨.other, some 4⟩], 0⟩ :=
    .next (by decide) (by decide) (Instruction.performs_of_others? (by decide))
  have hunbox : choose.Continues
      ⟨unboxing 5 "java/lang/Short" "shortValue" "()S", [⟨.other, some 4⟩], 0⟩
      ⟨⟨8, .goto, .branch 15⟩, [⟨.other, some 5⟩], 0⟩ :=
    .next (by decide) (by decide) (Instruction.performs_of_others? (by decide +kernel))
  have hjoin : choose.Proceeds ⟨⟨8, .goto, .branch 15⟩, [⟨.other, some 5⟩], 0⟩
      ⟨valueOfInteger 15, [⟨.other, some 5⟩], 0⟩ :=
    .jump (by decide) (by decide) (Instruction.performs_of_others? (by decide))
  exact ⟨⟨0, 0x1c, .localVar 2⟩, rfl,
    .tail (.tail (.tail (.tail (.tail .refl (.next htest)) (.next henter)) (.next hload))
      (.next hunbox)) hjoin⟩

end Boxing

end BytecodeLint
