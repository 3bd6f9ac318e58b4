import BytecodeLint.Proofs.Passes
import BytecodeLint.Proofs.Transitions

/-!
# The idiom of a self-assignment

`bean.setX(bean.getX())` puts the bean on the stack twice, calls the getter on
the upper reference and then the setter.  `Bean.SelfAssigns` says this of a list
of instructions, and knows of no detector.

The detector reads one instruction after another and keeps a `Progress`, which
holds what it needs of up to five instructions.  An instruction that does not go
on with a match may begin another one, so a field or a variable of the old match
might leak into the new one.  It does not: `Progress.Seen` says what a progress
tells of the instructions that came last, each of them in its place, and every
instruction keeps this.

There are four groups.

* The names and descriptors of getters and setters, by how they are written.
* The instructions of the idiom.
* `Progress.Seen`, its step and its run.
* `selfAssigns_of_follow` is the result.
-/

namespace BytecodeLint

/-! ## Names and descriptors -/

theorem Text.stripStart?_eq_some_iff {text start rest : String} :
    stripStart? text start = some rest ↔ text = start ++ rest := by
  unfold stripStart?
  rw [Option.map_eq_some_iff]
  constructor
  · rintro ⟨chars, hchars, rfl⟩
    rw [List.isPrefixOf?_eq_some_iff_append_eq] at hchars
    rw [← String.toList_inj, String.toList_append, String.toList_ofList, hchars]
  · rintro rfl
    refine ⟨rest.toList, ?_, String.ofList_toList⟩
    rw [List.isPrefixOf?_eq_some_iff_append_eq, String.toList_append]

/-- A list is read up to the first `c`. -/
theorem takeWhile_ne_append {α : Type} [DecidableEq α] {c : α} {front : List α} (h : c ∉ front)
    (behind : List α) : (front ++ c :: behind).takeWhile (· ≠ c) = front := by
  rw [List.takeWhile_append_of_pos]
  · simp
  · intro x hx
    simpa using fun heq : x = c => h (heq ▸ hx)

/-- The parameters of the method descriptor are written as `text`: between the
parenthesis that opens it and the first one that closes. -/
def WritesParameters (descriptor text : String) : Prop :=
  ')' ∉ text.toList ∧ ∃ behind, descriptor = "(" ++ text ++ ")" ++ behind

/-- The result of the method descriptor is written as `text`: behind the last
closing parenthesis. -/
def WritesResult (descriptor text : String) : Prop :=
  text ≠ "" ∧ ')' ∉ text.toList ∧ ∃ front, descriptor = front ++ ")" ++ text

theorem parametersText?_eq_some_iff {descriptor text : String} :
    parametersText? descriptor = some text ↔ WritesParameters descriptor text := by
  constructor
  · intro h
    unfold parametersText? at h
    split at h
    · rename_i rest hopen
      split at h
      · rename_i hclose
        obtain ⟨front, behind, rfl, hfront⟩ := List.eq_append_cons_of_mem hclose
        rw [takeWhile_ne_append hfront] at h
        obtain rfl := Option.some_inj.1 h
        refine ⟨by simpa using hfront, String.ofList behind, ?_⟩
        rw [← String.toList_inj, hopen]
        simp
      · cases h
    · cases h
  · rintro ⟨hclosed, behind, rfl⟩
    have hopen : ("(" ++ text ++ ")" ++ behind).toList =
        '(' :: (text.toList ++ ')' :: behind.toList) := by simp
    unfold parametersText?
    rw [hopen]
    simp only
    rw [if_pos (by simp), takeWhile_ne_append hclosed, String.ofList_toList]

theorem returnText?_eq_some_iff {descriptor text : String} :
    returnText? descriptor = some text ↔ WritesResult descriptor text := by
  constructor
  · intro h
    unfold returnText? at h
    simp only at h
    split at h
    · rename_i hclose
      obtain ⟨hclose, hnonempty⟩ := hclose
      obtain ⟨front, behind, hreversed, hfront⟩ := List.eq_append_cons_of_mem hclose
      rw [hreversed, takeWhile_ne_append hfront] at h hnonempty
      obtain rfl := Option.some_inj.1 h
      refine ⟨fun hempty => hnonempty ?_, by simpa using hfront, String.ofList behind.reverse, ?_⟩
      · simpa using congrArg String.toList hempty
      · rw [← String.toList_inj, ← List.reverse_inj, hreversed]
        simp
    · cases h
  · rintro ⟨hnonempty, hclosed, front, rfl⟩
    have hreversed : (front ++ ")" ++ text).toList.reverse =
        text.toList.reverse ++ ')' :: front.toList.reverse := by simp
    have hresult : ((front ++ ")" ++ text).toList.reverse.takeWhile (· ≠ ')')).reverse =
        text.toList := by
      rw [hreversed, takeWhile_ne_append (by simpa using hclosed), List.reverse_reverse]
    unfold returnText?
    simp only [hresult]
    rw [if_pos, String.ofList_toList]
    refine ⟨by simp, fun hempty => hnonempty ?_⟩
    rw [← String.ofList_toList (s := text), hempty]

namespace SelfAssignment

/-! ## Instructions of the idiom -/

/-- The instruction loads a reference from the local variable. -/
def Loads (inst : Instruction) (index : Nat) : Prop :=
  inst.opcode.isAload = true ∧ inst.local? = some index

/-- The instruction reads the instance field. -/
def Reads (inst : Instruction) (field : FieldRef) : Prop :=
  inst.opcode = .getfield ∧ inst.field? = some field

/-- The instruction calls the getter of the property, which takes nothing and
returns a value. -/
def CallsGetter (inst : Instruction) (property valueType : String) : Prop :=
  inst.opcode = .invokevirtual ∧ ∃ site, inst.call? = some site ∧
    site.name = "get" ++ property ∧ WritesParameters site.descriptor "" ∧
    WritesResult site.descriptor valueType ∧ valueType ≠ "V"

/-- The instruction calls the setter of the property, which takes the value and
returns nothing. -/
def CallsSetter (inst : Instruction) (property valueType : String) : Prop :=
  inst.opcode = .invokevirtual ∧ ∃ site, inst.call? = some site ∧
    site.name = "set" ++ property ∧ WritesParameters site.descriptor valueType ∧
    WritesResult site.descriptor "V"

variable {inst : Instruction} {property valueType : String}

theorem loadedLocal?_eq_some_iff {index : Nat} :
    loadedLocal? inst = some index ↔ Loads inst index := by
  unfold loadedLocal? Loads
  split <;> simp [*]

theorem readField?_eq_some_iff {field : FieldRef} :
    readField? inst = some field ↔ Reads inst field := by
  unfold readField? Reads
  split <;> simp_all

theorem getterCall?_eq_some_iff :
    getterCall? inst = some (property, valueType) ↔ CallsGetter inst property valueType := by
  unfold getterCall? CallsGetter
  by_cases hopcode : inst.opcode = .invokevirtual
  · rw [hopcode]
    simp only [beq_self_eq_true, if_true, Option.bind_eq_bind, Option.bind_eq_some_iff,
      Option.ite_none_right_eq_some, Option.some.injEq, Prod.mk.injEq,
      Text.stripStart?_eq_some_iff, returnText?_eq_some_iff, parametersText?_eq_some_iff,
      true_and]
    constructor
    · rintro ⟨site, hcall, _, hname, _, hresult, ⟨hparameters, hvalue⟩, rfl, rfl⟩
      exact ⟨site, hcall, hname, hparameters, hresult, hvalue⟩
    · rintro ⟨site, hcall, hname, hparameters, hresult, hvalue⟩
      exact ⟨site, hcall, property, hname, valueType, hresult, ⟨hparameters, hvalue⟩, rfl, rfl⟩
  · simp [hopcode]

theorem isSetterCall_iff :
    isSetterCall inst property valueType = true ↔ CallsSetter inst property valueType := by
  unfold isSetterCall CallsSetter
  simp only [Bool.and_eq_true, beq_iff_eq, Option.any_eq_true, Text.stripStart?_eq_some_iff,
    parametersText?_eq_some_iff, returnText?_eq_some_iff, and_assoc]

/-- The instructions put the bean on the stack. -/
inductive Bean.Refers : Bean → List Instruction → Prop
  | localVar {index load} (loads : Loads load index) : Refers ⟨index, none⟩ [load]
  | field {index ref load read} (loads : Loads load index) (reads : Reads read ref) :
    Refers ⟨index, some ref⟩ [load, read]

/-- The instructions set a property of the bean to the value that the same
property has. -/
inductive Bean.SelfAssigns (bean : Bean) : List Instruction → Prop
  | mk {lower upper getter setter property valueType} (lower_refers : bean.Refers lower)
    (upper_refers : bean.Refers upper) (gets : CallsGetter getter property valueType)
    (sets : CallsSetter setter property valueType) :
    SelfAssigns bean (lower ++ upper ++ [getter, setter])

/-! ## What a progress has seen -/

/-- The progress after many instructions. -/
def Progress.run (progress : Progress) (insts : List Instruction) : Progress :=
  insts.foldl (fun progress inst => (progress.advance inst).1) progress

/-- The instructions `done` end with those that the progress tells of. -/
inductive Progress.Seen : Progress → List Instruction → Prop
  | nothing {done} : Seen nothing done
  | loaded {before load index} (loads : Loads load index) : Seen (loaded index) (before ++ [load])
  | read {before lower index ref} (lower_refers : Bean.Refers ⟨index, some ref⟩ lower) :
    Seen (read index ref) (before ++ lower)
  | loadedAgain {before lower load index ref second}
    (lower_refers : Bean.Refers ⟨index, some ref⟩ lower) (loads : Loads load second) :
    Seen (loadedAgain index ref second) (before ++ lower ++ [load])
  | doubled {before lower upper bean} (lower_refers : bean.Refers lower)
    (upper_refers : bean.Refers upper) : Seen (doubled bean) (before ++ lower ++ upper)
  | got {before lower upper getter bean property valueType} (lower_refers : bean.Refers lower)
    (upper_refers : bean.Refers upper) (gets : CallsGetter getter property valueType) :
    Seen (got bean property valueType) (before ++ lower ++ upper ++ [getter])

namespace Progress.Seen

variable {progress : Progress} {done : List Instruction}

theorem start (done : List Instruction) (inst : Instruction) :
    Seen (start inst) (done ++ [inst]) := by
  unfold Progress.start
  cases hload : loadedLocal? inst with
  | some index => exact .loaded (loadedLocal?_eq_some_iff.1 hload)
  | none => exact .nothing

/-- One more instruction is seen in its place. -/
theorem advance (h : progress.Seen done) (inst : Instruction) :
    Seen (progress.advance inst).1 (done ++ [inst]) := by
  cases h with
  | nothing => exact start done inst
  | @loaded before load index loads =>
    simp only [Progress.advance]
    split
    · rename_i hload
      exact .doubled (.localVar loads) (.localVar (loadedLocal?_eq_some_iff.1 hload))
    · split
      · rename_i hread
        rw [List.append_assoc]
        exact .read (.field loads (readField?_eq_some_iff.1 hread))
      · exact start _ inst
  | read lower_refers =>
    simp only [Progress.advance]
    split
    · rename_i hload
      exact .loadedAgain lower_refers (loadedLocal?_eq_some_iff.1 hload)
    · exact start _ inst
  | @loadedAgain before lower load index ref second lower_refers loads =>
    simp only [Progress.advance]
    split
    · rename_i hread
      obtain ⟨rfl, hread⟩ := hread
      rw [List.append_assoc]
      exact .doubled lower_refers (.field loads (readField?_eq_some_iff.1 hread))
    · exact start _ inst
  | doubled lower_refers upper_refers =>
    simp only [Progress.advance]
    split
    · rename_i hgetter
      exact .got lower_refers upper_refers (getterCall?_eq_some_iff.1 hgetter)
    · exact start _ inst
  | got =>
    simp only [Progress.advance]
    split
    · exact .nothing
    · exact start _ inst

/-- A finding is made at the last instruction of the idiom. -/
theorem selfAssigns_of_advance (h : progress.Seen done) {subject : Subject}
    (hsubject : (progress.advance inst).2 = some subject) :
    ∃ (bean : Bean) (before window : List Instruction), done ++ [inst] = before ++ window ∧
      bean.SelfAssigns window ∧ subject = bean.subject := by
  obtain ⟨bean, property, valueType, rfl, hsetter, rfl⟩ := got_of_advance hsubject
  cases h with
  | @got before lower upper getter _ _ _ lower_refers upper_refers gets =>
    refine ⟨bean, before, _, ?_, .mk lower_refers upper_refers gets (isSetterCall_iff.1 hsetter),
      rfl⟩
    simp

/-- Along a run every instruction is seen in its place. -/
theorem run (h : progress.Seen done) (insts : List Instruction) :
    (progress.run insts).Seen (done ++ insts) := by
  induction insts generalizing progress done with
  | nil => rwa [List.append_nil]
  | cons inst rest ih =>
    rw [List.append_cons]
    exact ih (h.advance inst)

end Progress.Seen

/-! ## The result -/

/-- The detector fails at no visit, and its progress is a matter of the
instructions alone. -/
theorem follow_ok (cls : Class) (method : Method) (visits : List Visit) (progress : Progress) :
    ∃ found, detector.follow cls method visits progress =
      .ok found (progress.run (visits.map (·.instruction))) := by
  induction visits generalizing progress with
  | nil => exact ⟨[], rfl⟩
  | cons visit rest ih =>
    obtain ⟨later, hlater⟩ := ih (progress.advance visit.instruction).1
    have hvisit : detector.visit { visit with cls, method } progress =
        .ok _ (progress.advance visit.instruction).1 := visit_eq _ progress
    have hcons := @Detector.follow_cons detector cls method visit rest progress
    rw [hvisit] at hcons
    simp only [hlater] at hcons
    exact ⟨_, hcons⟩

/-- Whatever visits are offered to the detector, a finding is made at the end of
a self-assignment, and it is about the bean of this self-assignment. -/
theorem selfAssigns_of_follow (cls : Class) (method : Method) (visits : List Visit)
    (state : Progress) :
    ∃ found last, detector.follow cls method visits (detector.enter method state) =
        .ok found last ∧
      ∀ finding ∈ found, ∃ (front : List Visit) (visit : Visit) (later : List Visit)
          (before window : List Instruction) (bean : Bean),
        visits = front ++ visit :: later ∧
          (front ++ [visit]).map (·.instruction) = before ++ window ∧
          bean.SelfAssigns window ∧
          finding =
            Step.finding { visit with cls, method } selfAssignment (some bean.subject) := by
  obtain ⟨found, hfound⟩ := follow_ok cls method visits .nothing
  refine ⟨found, _, hfound, fun finding hfinding => ?_⟩
  obtain ⟨front, visit, later, earlier, progress, after, own, hsplit, hfront, hvisit, hown⟩ :=
    Detector.mem_follow hfound hfinding
  obtain ⟨_, hrun⟩ := follow_ok cls method front .nothing
  cases hrun.symm.trans hfront
  cases hvisit
  obtain ⟨subject, hsubject, rfl⟩ := Option.map_eq_some_iff.1 (Option.mem_toList.1 hown)
  have hseen : (Progress.run .nothing (front.map (·.instruction))).Seen
      ([] ++ front.map (·.instruction)) := Progress.Seen.nothing.run _
  obtain ⟨bean, before, window, hwindow, hassigns, rfl⟩ :=
    hseen.selfAssigns_of_advance hsubject
  exact ⟨front, visit, later, before, window, bean, hsplit, by simpa using hwindow, hassigns, rfl⟩

instance : DecidableEq detector.State := inferInstanceAs (DecidableEq Progress)

/-- A method that sets the name of its bean to itself.  A reference to the bean
and a load of `this` come before. -/
def rewriteName : Method where
  name := "rewrite"
  descriptor := "()V"
  maxStack := some 4
  code :=
    [ ⟨0, 0x2a, .localVar 0⟩
    , ⟨1, .getfield, .field ⟨"Demo", "bean", "Lcom/example/Bean;"⟩⟩
    , ⟨4, 0x2a, .localVar 0⟩
    , ⟨5, 0x2a, .localVar 0⟩
    , ⟨6, .getfield, .field ⟨"Demo", "bean", "Lcom/example/Bean;"⟩⟩
    , ⟨9, 0x2a, .localVar 0⟩
    , ⟨10, .getfield, .field ⟨"Demo", "bean", "Lcom/example/Bean;"⟩⟩
    , ⟨13, .invokevirtual,
        .call ⟨.virtual, "com/example/Bean", "getName", "()Ljava/lang/String;"⟩⟩
    , ⟨16, .invokevirtual,
        .call ⟨.virtual, "com/example/Bean", "setName", "(Ljava/lang/String;)V"⟩⟩
    , ⟨19, 0x58, .none⟩
    , ⟨20, .voidReturn, .none⟩ ]
  lines := []
  handlers := []

def rewriting : Class where
  name := "Demo"
  majorVersion := 52
  fields := []
  methods := [rewriteName]
  uri := none

/-- The broken match is left behind, and the finding is about the one that
follows it. -/
theorem rewriteName_selfAssigns :
    ∃ last,
      detector.follow rewriting rewriteName rewriteName.walk.visits
          (detector.enter rewriteName .nothing) =
        .ok [selfAssignment.report (rewriting.locate rewriteName 16)
          (some (.field "Demo" "bean" "Lcom/example/Bean;"))] last ∧
      ∃ (front : List Visit) (visit : Visit) (later : List Visit)
          (before window : List Instruction) (bean : Bean),
        rewriteName.walk.visits = front ++ visit :: later ∧
          (front ++ [visit]).map (·.instruction) = before ++ window ∧
          bean.SelfAssigns window ∧
          selfAssignment.report (rewriting.locate rewriteName 16)
              (some (.field "Demo" "bean" "Lcom/example/Bean;")) =
            Step.finding { visit with cls := rewriting, method := rewriteName } selfAssignment
              (some bean.subject) := by
  obtain ⟨found, last, hfollow, hfindings⟩ :=
    selfAssigns_of_follow rewriting rewriteName rewriteName.walk.visits .nothing
  have hreported : detector.follow rewriting rewriteName rewriteName.walk.visits
      (detector.enter rewriteName .nothing) =
        .ok [selfAssignment.report (rewriting.locate rewriteName 16)
          (some (.field "Demo" "bean" "Lcom/example/Bean;"))] .nothing := by decide +kernel
  cases hfollow.symm.trans hreported
  exact ⟨_, hreported, hfindings _ (List.mem_singleton_self _)⟩

end SelfAssignment

end BytecodeLint
