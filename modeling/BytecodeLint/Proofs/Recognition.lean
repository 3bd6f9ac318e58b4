import BytecodeLint.Proofs.Idiom

/-!
# Which self-assignments are recognised

An instruction that does not go on with a match may begin another one, but it
is the only instruction from which another match can begin.  The loads that
the broken match took before are not looked at again.  So a self-assignment
is missed if a match that will come to nothing has taken its first load.

This happens in two ways.  A load directly behind a load of the same variable
is taken for the second reference to a plain bean.  And a load directly behind
the read of a field is taken for the begin of the second reference to a bean
in a field.  `Begins` says this of the instructions alone, and
`reports_iff_begins` is the result: of all self-assignments, whatever comes
before them, those are reported that no such match runs into.

There are four groups.

* What the progress makes of each kind of instruction.
* `Progress.TakesLoad`: a load goes on with the match.
* A reference to the bean, and then the whole window.
* `Begins` and the result.
-/

namespace BytecodeLint.SelfAssignment

/-! ## The kinds of instructions -/

section Kinds

variable {inst : Instruction} {index : Nat} {ref : FieldRef} {property valueType : String}

theorem getterCall?_eq_none (h : inst.opcode ≠ .invokevirtual) : getterCall? inst = none := by
  simp [getterCall?, h]

theorem isSetterCall_eq_false (h : inst.opcode ≠ .invokevirtual) (property valueType : String) :
    isSetterCall inst property valueType = false := by
  simp [isSetterCall, h]

theorem readField?_eq_none (h : inst.opcode ≠ .getfield) : readField? inst = none := by
  simp [readField?, h]

theorem loadedLocal?_eq_none (h : inst.opcode.isAload = false) : loadedLocal? inst = none := by
  simp [loadedLocal?, h]

theorem Loads.opcode_ne (h : Loads inst index) {op : Opcode} (hop : op.isAload = false) :
    inst.opcode ≠ op := by
  rintro rfl
  rw [h.1] at hop
  cases hop

theorem Loads.not_reads (h : Loads inst index) : ¬ Reads inst ref :=
  fun hread => h.opcode_ne (by decide) hread.1

theorem Reads.loadedLocal?_eq_none (h : Reads inst ref) : loadedLocal? inst = none :=
  SelfAssignment.loadedLocal?_eq_none (by rw [h.1]; decide)

theorem CallsGetter.loadedLocal?_eq_none (h : CallsGetter inst property valueType) :
    loadedLocal? inst = none :=
  SelfAssignment.loadedLocal?_eq_none (by rw [h.1]; decide)

theorem CallsGetter.readField?_eq_none (h : CallsGetter inst property valueType) :
    readField? inst = none :=
  SelfAssignment.readField?_eq_none (by rw [h.1]; decide)

end Kinds

/-! ## Loads that go on with a match -/

namespace Progress

variable {progress : Progress} {inst : Instruction} {index : Nat} {ref : FieldRef}

/-- A load of the variable goes on with the match. -/
def TakesLoad (progress : Progress) (index : Nat) : Prop :=
  progress = loaded index ∨ ∃ other ref, progress = read other ref

/-- A load that does not go on with the match begins another one. -/
theorem advance_of_loads (hload : Loads inst index) (h : ¬ progress.TakesLoad index) :
    progress.advance inst = (loaded index, none) := by
  have hlocal : loadedLocal? inst = some index := loadedLocal?_eq_some_iff.2 hload
  have hstart : start inst = loaded index := by
    unfold start
    rw [hlocal]
  have hread : readField? inst = none := readField?_eq_none (hload.opcode_ne (by decide))
  have hcall : inst.opcode ≠ .invokevirtual := hload.opcode_ne (by decide)
  cases progress with
  | nothing => simp only [advance, hstart]
  | loaded other =>
    have hne : index ≠ other := fun heq => h (Or.inl (congrArg loaded heq.symm))
    simp only [advance, hlocal, Option.some.injEq, hne, if_false, hread, hstart]
  | read other ref => exact absurd (Or.inr ⟨other, ref, rfl⟩) h
  | loadedAgain other ref second =>
    simp only [advance, hread, reduceCtorEq, and_false, if_false, hstart]
  | doubled bean => simp only [advance, getterCall?_eq_none hcall, hstart]
  | got bean property valueType =>
    simp only [advance, isSetterCall_eq_false hcall, Bool.false_eq_true, if_false, hstart]

/-- A load that goes on with the match puts the bean there a second time, or
seems to begin doing so. -/
theorem advance_of_takesLoad (hload : Loads inst index) (h : progress.TakesLoad index) :
    progress.advance inst = (doubled ⟨index, none⟩, none) ∨
      ∃ other ref, progress.advance inst = (loadedAgain other ref index, none) := by
  have hlocal : loadedLocal? inst = some index := loadedLocal?_eq_some_iff.2 hload
  rcases h with rfl | ⟨other, ref, rfl⟩
  · exact Or.inl (by simp only [advance, hlocal, if_true])
  · exact Or.inr ⟨other, ref, by simp only [advance, hlocal]⟩

theorem start_of_loadedLocal?_eq_none (h : loadedLocal? inst = none) : start inst = nothing := by
  unfold start
  rw [h]

theorem start_ne_read (inst : Instruction) : start inst ≠ read index ref := by
  unfold start
  split <;> simp

/-- Only a load begins a match. -/
theorem advance_ne_loaded (h : loadedLocal? inst = none) :
    (progress.advance inst).1 ≠ loaded index := by
  have hstart := start_of_loadedLocal?_eq_none h
  cases progress with
  | nothing => simp [advance, hstart]
  | loaded other =>
    simp only [advance, h, reduceCtorEq, if_false, hstart]
    split <;> simp
  | read other ref => simp [advance, h, hstart]
  | loadedAgain other ref second =>
    simp only [advance, hstart]
    split <;> simp
  | doubled bean =>
    simp only [advance, hstart]
    split <;> simp
  | got bean property valueType =>
    simp only [advance, hstart]
    split <;> simp

/-- A match has just begun behind a load that began it. -/
theorem advance_eq_loaded_iff :
    (progress.advance inst).1 = loaded index ↔ Loads inst index ∧ ¬ progress.TakesLoad index := by
  constructor
  · intro h
    cases hlocal : loadedLocal? inst with
    | none => exact absurd h (advance_ne_loaded hlocal)
    | some other =>
      have hload := loadedLocal?_eq_some_iff.1 hlocal
      by_cases htakes : progress.TakesLoad other
      · rcases advance_of_takesLoad hload htakes with hdoubled | ⟨_, _, hagain⟩
        · rw [hdoubled] at h
          cases h
        · rw [hagain] at h
          cases h
      · rw [advance_of_loads hload htakes] at h
        cases h
        exact ⟨hload, htakes⟩
  · rintro ⟨hload, htakes⟩
    rw [advance_of_loads hload htakes]

/-- A field has just been read for the match behind a read that follows the load
with which the match began. -/
theorem advance_eq_read_iff :
    (progress.advance inst).1 = read index ref ↔ Reads inst ref ∧ progress = loaded index := by
  constructor
  · intro h
    cases progress with
    | loaded other =>
      simp only [advance] at h
      split at h
      · cases h
      · split at h
        · rename_i hread
          cases h
          exact ⟨readField?_eq_some_iff.1 hread, rfl⟩
        · exact absurd h (start_ne_read inst)
    | nothing => exact absurd h (start_ne_read inst)
    | read other ref =>
      simp only [advance] at h
      split at h
      · cases h
      · exact absurd h (start_ne_read inst)
    | loadedAgain other ref second =>
      simp only [advance] at h
      split at h
      · cases h
      · exact absurd h (start_ne_read inst)
    | doubled bean =>
      simp only [advance] at h
      split at h
      · cases h
      · exact absurd h (start_ne_read inst)
    | got bean property valueType =>
      simp only [advance] at h
      split at h
      · cases h
      · exact absurd h (start_ne_read inst)
  · rintro ⟨hread, rfl⟩
    simp only [advance, hread.loadedLocal?_eq_none, reduceCtorEq, if_false,
      readField?_eq_some_iff.2 hread]

/-- The match behind an instruction takes a load if the instruction is a load that
began it, or the read of a field behind such a load. -/
theorem takesLoad_advance_iff :
    (progress.advance inst).1.TakesLoad index ↔
      (Loads inst index ∧ ¬ progress.TakesLoad index) ∨
        ∃ other ref, Reads inst ref ∧ progress = loaded other := by
  simp only [TakesLoad, advance_eq_read_iff, advance_eq_loaded_iff]

end Progress

/-! ## References and windows -/

/-- The match behind a reference to the bean that begins it. -/
def Bean.referred (bean : Bean) : Progress :=
  match bean.field with
  | some ref => .read bean.index ref
  | none => .loaded bean.index

namespace Bean.Refers

variable {bean : Bean} {reference : List Instruction} {progress : Progress}

/-- A reference whose load begins a match is the first one of the match. -/
theorem run_of_begins (h : bean.Refers reference) (hbegins : ¬ progress.TakesLoad bean.index) :
    progress.run reference = bean.referred := by
  cases h with
  | localVar loads => exact congrArg Prod.fst (Progress.advance_of_loads loads hbegins)
  | @field index ref load read loads reads =>
    have hload := Progress.advance_of_loads loads hbegins
    have hread : ((Progress.loaded index).advance read).1 = .read index ref :=
      Progress.advance_eq_read_iff.2 ⟨reads, rfl⟩
    show ((progress.advance load).1.advance read).1 = _
    rw [hload, hread]
    rfl

/-- Behind the first reference of a match the same reference is the second one. -/
theorem run_referred (h : bean.Refers reference) :
    bean.referred.run reference = .doubled bean := by
  cases h with
  | @localVar index load loads =>
    show ((Progress.loaded index).advance load).1 = _
    simp only [Progress.advance, loadedLocal?_eq_some_iff.2 loads, if_true]
  | @field index ref load read loads reads =>
    show (((Progress.read index ref).advance load).1.advance read).1 = _
    simp only [Progress.advance, loadedLocal?_eq_some_iff.2 loads,
      readField?_eq_some_iff.2 reads, and_self, if_true]

/-- A reference whose load goes on with another match leaves no match that takes
a load. -/
theorem not_takesLoad_run (h : bean.Refers reference) (htakes : progress.TakesLoad bean.index) :
    ¬ (progress.run reference).TakesLoad bean.index := by
  cases h with
  | @localVar index load loads =>
    show ¬ (progress.advance load).1.TakesLoad index
    rw [Progress.takesLoad_advance_iff]
    rintro (⟨_, hbegins⟩ | ⟨_, _, hread, _⟩)
    · exact hbegins htakes
    · exact loads.not_reads hread
  | @field index ref load read loads reads =>
    show ¬ ((progress.advance load).1.advance read).1.TakesLoad index
    rw [Progress.takesLoad_advance_iff]
    rintro (⟨hload, _⟩ | ⟨other, _, _, hbegun⟩)
    · exact hload.not_reads reads
    · obtain ⟨hload, hbegins⟩ := Progress.advance_eq_loaded_iff.1 hbegun
      obtain rfl : index = other := Option.some_inj.1 (loads.2.symm.trans hload.2)
      exact hbegins htakes

end Bean.Refers

theorem Progress.run_append (progress : Progress) (front rest : List Instruction) :
    progress.run (front ++ rest) = (progress.run front).run rest := List.foldl_append

/-- A getter behind the first reference of a match breaks it. -/
theorem Bean.advance_referred (bean : Bean) {getter : Instruction} {property valueType : String}
    (h : CallsGetter getter property valueType) :
    (bean.referred.advance getter).1 = .nothing := by
  have hlocal := h.loadedLocal?_eq_none
  have hstart := Progress.start_of_loadedLocal?_eq_none hlocal
  unfold Bean.referred
  cases bean.field with
  | some ref => simp only [Progress.advance, hlocal, hstart]
  | none =>
    simp only [Progress.advance, hlocal, reduceCtorEq, if_false, h.readField?_eq_none, hstart]

/-- A self-assignment is complete at its last instruction exactly if its first load
begins a match. -/
theorem Bean.SelfAssigns.advance_run {bean : Bean} {window : List Instruction}
    {final : Instruction} (h : bean.SelfAssigns (window ++ [final])) (progress : Progress) :
    (¬ progress.TakesLoad bean.index →
        ((progress.run window).advance final).2 = some bean.subject) ∧
      (progress.TakesLoad bean.index → ((progress.run window).advance final).2 = none) := by
  generalize hwhole : window ++ [final] = whole at h
  obtain ⟨lower_refers, upper_refers, gets, sets⟩ := h
  rename_i lower upper getter setter property valueType
  obtain ⟨rfl, hfinal⟩ : window = lower ++ upper ++ [getter] ∧ [final] = [setter] := by
    refine List.append_inj' (hwhole.trans ?_) rfl
    simp
  obtain rfl := List.singleton_inj.1 hfinal
  rw [Progress.run_append, Progress.run_append]
  constructor
  · intro hbegins
    rw [lower_refers.run_of_begins hbegins, upper_refers.run_referred]
    show (((Progress.doubled bean).advance getter).1.advance final).2 = some bean.subject
    simp only [Progress.advance, getterCall?_eq_some_iff.2 gets, isSetterCall_iff.2 sets, if_true]
  · intro htakes
    rw [upper_refers.run_of_begins (lower_refers.not_takesLoad_run htakes)]
    show ((bean.referred.advance getter).1.advance final).2 = none
    rw [bean.advance_referred gets]
    rfl

/-! ## The result -/

/-- A load of the variable begins a match.  The instructions before it are given,
the last one first.  The load does not begin a match directly behind a load of
the same variable that does, nor directly behind the read of a field for which
a load of any variable begins a match. -/
def Begins : List Instruction → Nat → Prop
  | [], _ => True
  | [last], index => ¬ Loads last index
  | last :: previous :: before, index =>
    ¬ (Loads last index ∧ Begins (previous :: before) index) ∧
      ¬ ∃ other ref, Reads last ref ∧ Loads previous other ∧ Begins before other

theorem takesLoad_run_iff : ∀ (latest : List Instruction) (index : Nat),
    (Progress.run .nothing latest.reverse).TakesLoad index ↔ ¬ Begins latest index
  | [], index => by
    simp [Progress.run, Progress.TakesLoad, Begins]
  | [last], index => by
    show (Progress.nothing.advance last).1.TakesLoad index ↔ _
    rw [Progress.takesLoad_advance_iff]
    simp [Progress.TakesLoad, Begins]
  | last :: previous :: before, index => by
    have hprevious (other : Nat) := takesLoad_run_iff (previous :: before) other
    have hbefore (other : Nat) := takesLoad_run_iff before other
    rw [List.reverse_cons, Progress.run_append]
    show ((Progress.run .nothing (previous :: before).reverse).advance last).1.TakesLoad index ↔ _
    have hloaded (other : Nat) :
        Progress.run .nothing (previous :: before).reverse = .loaded other ↔
          Loads previous other ∧ Begins before other := by
      rw [List.reverse_cons, Progress.run_append]
      show ((Progress.run .nothing before.reverse).advance previous).1 = _ ↔ _
      rw [Progress.advance_eq_loaded_iff, hbefore, not_not]
    rw [Progress.takesLoad_advance_iff, hprevious, not_not]
    simp only [hloaded, Begins]
    rw [not_and_or, not_not, not_not]

/-- Where the last instruction is neither a load of the variable nor the read of a
field, a load begins a match. -/
theorem begins_of_last {latest : List Instruction} {index : Nat}
    (h : ∀ last ∈ latest.head?, ¬ Loads last index ∧ ∀ ref, ¬ Reads last ref) :
    Begins latest index := by
  match latest with
  | [] => trivial
  | [last] => exact (h last rfl).1
  | last :: previous :: before =>
    obtain ⟨hload, hread⟩ := h last rfl
    exact ⟨fun hlast => hload hlast.1, fun ⟨_, ref, hlast, _⟩ => hread ref hlast⟩

/-- Of the self-assignments in the code, whatever comes before them, the detector
reports those whose first load begins a match, at their last instruction and
with their bean.  The first load fails to begin a match only directly behind a
load of the same variable or the read of a field. -/
theorem reports_iff_begins (cls : Class) (method : Method) (front : List Visit)
    {window : List Visit} {final : Visit} {bean : Bean}
    (hassigns : bean.SelfAssigns ((window ++ [final]).map (·.instruction))) (state : Progress) :
    ∃ found progress reported after,
      detector.follow cls method (front ++ window) (detector.enter method state) =
          .ok found progress ∧
        detector.visit { final with cls, method } progress = .ok reported after ∧
        (Begins (front.map (·.instruction)).reverse bean.index → reported =
          [Step.finding { final with cls, method } selfAssignment (some bean.subject)]) ∧
        (¬ Begins (front.map (·.instruction)).reverse bean.index → reported = []) ∧
        ((∀ last ∈ front.getLast?, ¬ Loads last.instruction bean.index ∧
            ∀ ref, ¬ Reads last.instruction ref) →
          Begins (front.map (·.instruction)).reverse bean.index) := by
  obtain ⟨found, hfollow⟩ := follow_ok cls method (front ++ window) .nothing
  rw [List.map_append, Progress.run_append] at hfollow
  rw [List.map_append] at hassigns
  obtain ⟨hreported, hmissed⟩ :=
    hassigns.advance_run (Progress.run .nothing (front.map (·.instruction)))
  have htakes := takesLoad_run_iff (front.map (·.instruction)).reverse bean.index
  rw [List.reverse_reverse] at htakes
  refine ⟨found, _, _, _, hfollow, visit_eq _ _, fun hbegins => ?_, fun hbegins => ?_, fun h => ?_⟩
  · rw [hreported (fun htaken => htakes.1 htaken hbegins)]
    rfl
  · rw [hmissed (htakes.2 hbegins)]
    rfl
  · refine begins_of_last fun last hlast => ?_
    rw [List.head?_reverse, List.getLast?_map] at hlast
    obtain ⟨visit, hvisit, rfl⟩ := Option.map_eq_some_iff.1 hlast
    exact h visit hvisit

/-- The bean that `rewriteName` takes from a field of `this`. -/
def rewrittenBean : Bean where
  index := 0
  field := some ⟨"Demo", "bean", "Lcom/example/Bean;"⟩

/-- The call of the setter in `rewriteName`. -/
def rewritingCall : Visit where
  instruction :=
    ⟨16, .invokevirtual,
      .call ⟨.virtual, "com/example/Bean", "setName", "(Ljava/lang/String;)V"⟩⟩
  slots :=
    [ .unknown
    , .value (.fieldOf ⟨"Demo", "bean", "Lcom/example/Bean;"⟩ false (.localVar 0))
    , .value (.localVar 0)
    , .value (.fieldOf ⟨"Demo", "bean", "Lcom/example/Bean;"⟩ false (.localVar 0)) ]
  effect := ⟨2, 0⟩

/-- The load before the self-assignment goes on with another match, so the load
behind it begins one. -/
theorem rewriteName_reported :
    rewriteName.walk.visits =
        (rewriteName.walk.visits.take 3 ++ (rewriteName.walk.visits.drop 3).take 5) ++
          rewritingCall :: rewriteName.walk.visits.drop 9 ∧
      rewrittenBean.SelfAssigns
        (((rewriteName.walk.visits.drop 3).take 5 ++ [rewritingCall]).map (·.instruction)) ∧
      Begins ((rewriteName.walk.visits.take 3).map (·.instruction)).reverse 0 ∧
      ∃ found progress after,
        detector.follow rewriting rewriteName
            (rewriteName.walk.visits.take 3 ++ (rewriteName.walk.visits.drop 3).take 5)
            (detector.enter rewriteName .nothing) = .ok found progress ∧
          detector.visit { rewritingCall with cls := rewriting, method := rewriteName } progress =
            .ok [selfAssignment.report (rewriting.locate rewriteName 16)
              (some (.field "Demo" "bean" "Lcom/example/Bean;"))] after := by
  have hvisits : rewriteName.walk.visits =
      (rewriteName.walk.visits.take 3 ++ (rewriteName.walk.visits.drop 3).take 5) ++
        rewritingCall :: rewriteName.walk.visits.drop 9 := by decide +kernel
  have hload (offset : Nat) : Loads ⟨offset, 0x2a, .localVar 0⟩ 0 := ⟨rfl, rfl⟩
  have hread (offset : Nat) : Reads
      ⟨offset, .getfield, .field ⟨"Demo", "bean", "Lcom/example/Bean;"⟩⟩
      ⟨"Demo", "bean", "Lcom/example/Bean;"⟩ := ⟨rfl, rfl⟩
  have hassigns : rewrittenBean.SelfAssigns
      (((rewriteName.walk.visits.drop 3).take 5 ++ [rewritingCall]).map (·.instruction)) := by
    have hgets : CallsGetter ⟨13, .invokevirtual,
        .call ⟨.virtual, "com/example/Bean", "getName", "()Ljava/lang/String;"⟩⟩
        "Name" "Ljava/lang/String;" := getterCall?_eq_some_iff.1 (by decide +kernel)
    have hsets : CallsSetter rewritingCall.instruction "Name" "Ljava/lang/String;" :=
      isSetterCall_iff.1 (by decide +kernel)
    have hwindow : ((rewriteName.walk.visits.drop 3).take 5 ++ [rewritingCall]).map
        (·.instruction) = (rewriteName.code.drop 3).take 6 := by decide +kernel
    rw [hwindow]
    exact .mk (.field (hload 5) (hread 6)) (.field (hload 9) (hread 10)) hgets hsets
  have hbegins : Begins ((rewriteName.walk.visits.take 3).map (·.instruction)).reverse 0 := by
    have hfront : ((rewriteName.walk.visits.take 3).map (·.instruction)).reverse =
        [⟨4, 0x2a, .localVar 0⟩,
          ⟨1, .getfield, .field ⟨"Demo", "bean", "Lcom/example/Bean;"⟩⟩,
          ⟨0, 0x2a, .localVar 0⟩] := by decide +kernel
    rw [hfront]
    refine ⟨fun ⟨_, hopens⟩ => ?_, fun ⟨_, _, hlast, _⟩ => (hload 4).not_reads hlast⟩
    exact hopens.2 ⟨0, _, hread 1, hload 0, trivial⟩
  obtain ⟨found, progress, reported, after, hfollow, hvisit, hreported, _⟩ :=
    reports_iff_begins rewriting rewriteName (rewriteName.walk.visits.take 3) hassigns .nothing
  exact ⟨hvisits, hassigns, hbegins, found, progress, after, hfollow,
    hreported hbegins ▸ hvisit⟩

/-- A method that sets the name of its argument to itself, with one more
reference to the argument below. -/
def keepName : Method where
  name := "keep"
  descriptor := "(Lcom/example/Bean;)V"
  maxStack := some 3
  code :=
    [ ⟨0, 0x2b, .localVar 1⟩
    , ⟨1, 0x2b, .localVar 1⟩
    , ⟨2, 0x2b, .localVar 1⟩
    , ⟨3, .invokevirtual,
        .call ⟨.virtual, "com/example/Bean", "getName", "()Ljava/lang/String;"⟩⟩
    , ⟨6, .invokevirtual,
        .call ⟨.virtual, "com/example/Bean", "setName", "(Ljava/lang/String;)V"⟩⟩
    , ⟨9, .pop, .none⟩
    , ⟨10, .voidReturn, .none⟩ ]
  lines := []
  handlers := []

def keeping : Class where
  name := "Demo"
  majorVersion := 52
  fields := []
  methods := [keepName]
  uri := none

/-- The self-assignment that ends at 6 is not reported: the load at 1 is taken for
the second reference of the load at 0. -/
theorem keepName_unreported :
    keepName.walk.completes = true ∧
      (∃ front window later, keepName.walk.visits.map (·.instruction) = front ++ window ++ later ∧
        Bean.SelfAssigns ⟨1, none⟩ window ∧ window.getLast?.map (·.offset) = some 6) ∧
      (analyzeClass catalog keeping).findings = [] := by
  have hload (offset : Nat) : Loads ⟨offset, 0x2b, .localVar 1⟩ 1 := ⟨rfl, rfl⟩
  have hgets : CallsGetter ⟨3, .invokevirtual,
      .call ⟨.virtual, "com/example/Bean", "getName", "()Ljava/lang/String;"⟩⟩
      "Name" "Ljava/lang/String;" := getterCall?_eq_some_iff.1 (by decide +kernel)
  have hsets : CallsSetter ⟨6, .invokevirtual,
      .call ⟨.virtual, "com/example/Bean", "setName", "(Ljava/lang/String;)V"⟩⟩
      "Name" "Ljava/lang/String;" := isSetterCall_iff.1 (by decide +kernel)
  refine ⟨by decide +kernel, ⟨keepName.code.take 1, _, keepName.code.drop 5, ?_,
    .mk (.localVar (hload 1)) (.localVar (hload 2)) hgets hsets, rfl⟩, by decide +kernel⟩
  decide +kernel

end BytecodeLint.SelfAssignment
