import BytecodeLint.Proofs.MethodLocality
import BytecodeLint.Proofs.Statements

/-!
# Discarded objects are found exactly

The detector of discarded objects has no loophole in code without jumps.  In a
method that is compiled from statements it reports the constructor call of each
statement that drops a constructed object, and nothing else.

There are three groups.

* `Method.Compiles`: a method that is compiled from statements, and what is
  found in it.
* The findings of a class are those of its methods, and a report keeps the order
  of the statements.
* `discarded_exactly` is the result.
-/

namespace BytecodeLint

open OperandStack

/-! ## Compiled methods -/

/-- The method is compiled from the statements. -/
structure Method.Compiles (method : Method) (statements : List Statement) : Prop where
  code : ∃ ret, method.code =
    statements.flatMap Statement.code ++ [⟨ret, .voidReturn, .none⟩]
  wellFormed : ∀ statement ∈ statements, statement.WellFormed
  room : ∀ statement ∈ statements, method.Allows statement.room
  ascending : method.Ascending
  handlers : method.handlers = []

namespace Method.Compiles

variable {method : Method} {statements : List Statement}

theorem sequential (h : method.Compiles statements) : method.Sequential := by
  refine ⟨h.handlers, fun inst hinst => ?_⟩
  obtain ⟨ret, hcode⟩ := h.code
  rw [hcode] at hinst
  rcases List.mem_append.1 hinst with hstatements | hret
  · obtain ⟨statement, hstatement, hmem⟩ := List.mem_flatMap.1 hstatements
    exact Statement.targets_code (h.wellFormed statement hstatement) inst hmem
  · rw [List.mem_singleton.1 hret]
    rfl

theorem ordered (h : method.Compiles statements) :
    (statements.flatMap Statement.code).Pairwise
      fun earlier later => earlier.offset < later.offset := by
  obtain ⟨ret, hcode⟩ := h.code
  have hascending := h.ascending
  unfold Method.Ascending at hascending
  rw [hcode] at hascending
  exact (List.pairwise_append.1 hascending).1

theorem accepts (h : method.Compiles statements) {statement : Statement}
    (hstatement : statement ∈ statements) {init : Nat}
    (hdiscarded : statement.discarded? = some init) :
    DiscardedObject.detector.accepts method method.opcodes = true := by
  obtain ⟨ret, hcode⟩ := h.code
  have hcontains : ∀ inst ∈ statement.code, method.opcodes.contains inst.opcode = true := by
    intro inst hinst
    rw [Method.opcodes, OpcodeSet.contains_ofList, List.contains_iff_mem, hcode]
    exact List.mem_map_of_mem
      (List.mem_append_left _ (List.mem_flatMap.2 ⟨statement, hstatement, hinst⟩))
  obtain ⟨⟨new, hnew, hallocates⟩, call, hcall, hconstructs, _⟩ :=
    Statement.mem_code_of_discarded hdiscarded
  have hboth := And.intro (hcontains new hnew) (hcontains call hcall)
  rw [hallocates, hconstructs] at hboth
  exact Bool.and_eq_true_iff.2 hboth

/-- The detector finds what the statements give, whatever state it comes
with. -/
theorem foundIn (h : method.Compiles statements) (cls : Class)
    (state : DiscardedObject.detector.State) :
    DiscardedObject.detector.foundIn cls state method =
      statements.filterMap (Statement.report? cls method) := by
  obtain ⟨ret, hcode⟩ := h.code
  cases haccepts : DiscardedObject.detector.accepts method method.opcodes with
  | true =>
    have hpasses : DiscardedObject.detector.Passes cls method (statements.flatMap Statement.code)
        ⟨[], none⟩ (statements.filterMap (Statement.report? cls method)) ⟨[], none⟩ :=
      DiscardedObject.passes_statements h.sequential h.wellFormed h.ordered h.room
    have hreturn : Opcode.voidReturn.effect? = some (.replace 0 0) := by decide
    have hempty : method.Allows 0 := fun limit _ => Nat.zero_le limit
    have hexecutes : method.Executes ⟨ret, .voidReturn, .none⟩ [] (.replace 0 0) ⟨0, 0⟩ :=
      ⟨hreturn, rfl, Nat.le_refl 0, hempty, hempty⟩
    have hvisit : DiscardedObject.detector.visit
        ⟨⟨⟨ret, .voidReturn, .none⟩, [], ⟨0, 0⟩⟩, cls, method⟩ none = .ok [] none := rfl
    have hfound : DiscardedObject.detector.foundIn cls state method =
        statements.filterMap (Statement.report? cls method) ++ [] :=
      Detector.Passes.foundIn h.sequential hcode hpasses rfl hexecutes hvisit haccepts
    rwa [List.append_nil] at hfound
  | false =>
    have hnone : statements.filterMap (Statement.report? cls method) = [] := by
      refine List.filterMap_eq_nil_iff.2 fun statement hstatement => ?_
      refine Option.map_eq_none_iff.2 (Option.eq_none_iff_forall_ne_some.2 fun init hinit => ?_)
      rw [h.accepts hstatement hinit] at haccepts
      cases haccepts
    unfold Detector.foundIn
    rw [haccepts, hnone]
    rfl

end Method.Compiles

/-! ## Classes and reports -/

/-- The findings of the detector in a class. -/
def discardedIn (cls : Class) : List Finding :=
  (analyzeClass catalog cls).findings.filter (·.ruleId == DiscardedObject.discarded.id)

theorem discardedIn_eq_flatMap (cls : Class) :
    discardedIn cls = cls.methods.flatMap fun method => discardedIn (cls.withMethods [method]) := by
  have hlocal : ∀ cls : Class, discardedIn cls =
      ((analyzeClass catalog cls).findings.filter (localRules.contains ·.ruleId)).filter
        (·.ruleId == DiscardedObject.discarded.id) := by
    intro cls
    have hmem : localRules.contains DiscardedObject.discarded.id = true := by decide
    unfold discardedIn
    rw [List.filter_filter]
    refine List.filter_congr fun finding _ => ?_
    cases hrule : finding.ruleId == DiscardedObject.discarded.id with
    | true => rw [eq_of_beq hrule, hmem, Bool.and_true]
    | false => rw [Bool.false_and]
  rw [hlocal, (analyzeClass_eq_flatMap_methods (fun _ h => h) cls).1, List.filter_flatMap]
  exact List.flatMap_congr fun method _ => (hlocal _).symm

theorem discardedIn_alone {cls : Class} {method : Method} (hbody : method.hasBody = true) :
    discardedIn (cls.withMethods [method]) =
      DiscardedObject.detector.foundIn (cls.withMethods [method]) none method := by
  have hselected : discardedIn (cls.withMethods [method]) =
      (analyzeClass [DiscardedObject.detector] (cls.withMethods [method])).findings := by
    refine Eq.trans ?_ (findings_selected ["SEC"] (cls.withMethods [method])).symm
    refine List.filter_congr fun finding _ => ?_
    show _ = [DiscardedObject.discarded.id].contains finding.ruleId
    rw [List.contains_cons, List.contains_nil, Bool.or_false]
  have hmethods : (cls.withMethods [method]).methods.filter Method.hasBody = [method] := by
    simp [Class.withMethods, hbody]
  have hbegun : begun [DiscardedObject.detector] (cls.withMethods [method]) =
      [⟨DiscardedObject.detector, none⟩] := rfl
  rw [hselected, findings_analyzeClass, hmethods, analyzeMethods_cons_findings,
    analyzeMethod_findings, analyzeMethods_passes, hbegun]
  -- Nothing comes before the method or behind it, and nothing at the end.
  show (DiscardedObject.detector.foundIn _ none method ++ []) ++ [] ++ [] = _
  simp only [List.append_nil]

/-- In one method, reports are put in the order of their offsets. -/
theorem order_report (cls : Class) (method : Method) (rule : Rule) (earlier later : Nat) :
    (rule.report (cls.locate method earlier) none).order
      (rule.report (cls.locate method later) none) = compare earlier later := by
  simp [Finding.order, compareLex, compareOn, Rule.report, Class.locate]

theorem Method.Compiles.pairwise_reports {method : Method} {statements : List Statement}
    (h : method.Compiles statements) (cls : Class) :
    (statements.filterMap (Statement.report? cls method)).Pairwise
      fun finding other => (finding.order other).isLE = true := by
  refine List.pairwise_filterMap.2 ?_
  refine (List.pairwise_flatMap.1 h.ordered).2.imp ?_
  intro first second hoffsets finding hfinding other hother
  obtain ⟨init, hinit, rfl⟩ := Option.map_eq_some_iff.1 hfinding
  obtain ⟨later, hlater, rfl⟩ := Option.map_eq_some_iff.1 hother
  obtain ⟨_, inst, hinst, _, rfl⟩ := Statement.mem_code_of_discarded hinit
  obtain ⟨_, call, hcall, _, rfl⟩ := Statement.mem_code_of_discarded hlater
  rw [order_report]
  exact Nat.isLE_compare.2 (Nat.le_of_lt (hoffsets inst hinst call hcall))

/-! ## The result -/

/-- The objects that statements drop are found exactly: where a method is
compiled from statements, the findings in it are those of the statements, in
their order.  The other methods of the class contribute what they do without
it. -/
theorem discarded_exactly {cls : Class} {before after : List Method} {method : Method}
    {statements : List Statement} (hmethods : cls.methods = before ++ method :: after)
    (h : method.Compiles statements) :
    discardedIn cls = discardedIn (cls.withMethods before) ++
        statements.filterMap (Statement.report? cls method) ++
          discardedIn (cls.withMethods after) ∧
      (analyze catalog [cls.withMethods [method]]).findings.filter
          (·.ruleId == DiscardedObject.discarded.id) =
        statements.filterMap (Statement.report? cls method) := by
  have hbody : method.hasBody = true := by
    obtain ⟨ret, hcode⟩ := h.code
    simp [Method.hasBody, hcode]
  have hmethod : discardedIn (cls.withMethods [method]) =
      statements.filterMap (Statement.report? cls method) :=
    (discardedIn_alone hbody).trans (h.foundIn (cls.withMethods [method]) none)
  constructor
  · rw [discardedIn_eq_flatMap cls, hmethods, List.flatMap_append, List.flatMap_cons, hmethod,
      discardedIn_eq_flatMap (cls.withMethods before),
      discardedIn_eq_flatMap (cls.withMethods after), List.append_assoc]
    rfl
  · rw [findings_analyze, filter_sortFindings, List.flatMap_singleton]
    refine (congrArg sortFindings hmethod).trans ?_
    exact List.mergeSort_of_pairwise (h.pairwise_reports cls)

/-- `new Box(new Item());`, `box = new Box(null);`, `box.put(new Item());` and
`Box.make(0L);`, one after another. -/
def nested : List Statement :=
  [ .discard (.construct 0 3 "Box" (.cons (.construct 4 7 "Item" .none 8 "()V") .none) 11
      "(LItem;)V") 14
  , .store (.construct 15 18 "Box" (.cons (.load ⟨19, 0x01, .none⟩ 1) .none) 20 "(LItem;)V")
      ⟨23, 0x4c, .none⟩
  , .call (.cons (.load ⟨24, 0x2b, .none⟩ 1) (.cons (.construct 25 28 "Item" .none 29 "()V") .none))
      32 ⟨.virtual, "Box", "put", "(LItem;)V"⟩
  , .discard (.call (.cons (.load ⟨35, 0x09, .none⟩ 2) .none) 36
      ⟨.static, "Box", "make", "(J)LBox;"⟩) 39 ]

def nestedMethod : Method where
  name := "run"
  descriptor := "()V"
  maxStack := some 4
  code := nested.flatMap Statement.code ++ [⟨40, .voidReturn, .none⟩]
  lines := []
  handlers := []

theorem nestedMethod_compiles : nestedMethod.Compiles nested := by
  refine ⟨⟨40, rfl⟩, by decide +kernel, ?_, by decide +kernel, rfl⟩
  have hroom : ∀ statement ∈ nested, statement.room ≤ 4 := by decide
  intro statement hstatement limit hlimit
  cases hlimit
  exact hroom statement hstatement

/-- A class that drops an object in each of its methods. -/
def dropping : Class :=
  nestedMethod.alone.withMethods [DiscardedObject.constructAndDrop, nestedMethod]

/-- Of the four objects that are constructed in the second method only the first
`Box` is reported. -/
theorem nested_discarded :
    discardedIn dropping =
        [ DiscardedObject.discarded.report ⟨"Demo", "run", "()V", 5, none, none⟩ none
        , DiscardedObject.discarded.report ⟨"Demo", "run", "()V", 11, none, none⟩ none ] ∧
      (analyze catalog [nestedMethod.alone]).findings.filter
          (·.ruleId == DiscardedObject.discarded.id) =
        [DiscardedObject.discarded.report ⟨"Demo", "run", "()V", 11, none, none⟩ none] := by
  have hmethods : dropping.methods = [DiscardedObject.constructAndDrop] ++ nestedMethod :: [] := rfl
  obtain ⟨hclass, halone⟩ := discarded_exactly hmethods nestedMethod_compiles
  refine ⟨hclass.trans ?_, halone.trans ?_⟩
  · decide +kernel
  · decide +kernel

end BytecodeLint
