import BytecodeLint.Proofs.Idiom
import Mathlib.Algebra.Ring.Nat

/-!
# Signatures

The descriptor of a method is looked at in four ways.  One reader takes it apart
into types to count slots, two cuts look for a closing parenthesis, the first or
the last, and the slots of a field are told by the first character alone.  Nothing
in the code makes them agree.  They do for every text that the grammar of
descriptors generates.

There are four groups.

* The types of the grammar, and how many slots their values take.
* What the grammar says about the characters of a text.
* The readers undo `render`, whatever stands behind the text.
* `views_agree` is the result.
-/

namespace BytecodeLint

/-! ## The grammar -/

namespace TypeDescriptor

/-- A type that is no array: a primitive type, or a class whose name holds no
character that would end it. -/
inductive IsElement : TypeDescriptor → Prop
  | base {type : BaseType} (notVoid : type ≠ .void) : IsElement (.base type)
  | object {name : List Char} (noSemicolon : ';' ∉ name) (noParenthesis : ')' ∉ name) :
    IsElement (.object name)

/-- A type that a value can have. -/
inductive IsValue : TypeDescriptor → Prop
  | element {type : TypeDescriptor} (element : IsElement type) : IsValue type
  | array {dimensions : Nat} {type : TypeDescriptor} (element : IsElement type)
    (pos : 0 < dimensions) (le : dimensions ≤ 255) : IsValue (.array dimensions type)

/-- What a method can return: a value, or nothing. -/
def IsResult (type : TypeDescriptor) : Prop :=
  type = .base .void ∨ type.IsValue

/-- Wide values take two slots, all others take one. -/
def width (type : TypeDescriptor) : Nat :=
  if type = .base .long ∨ type = .base .double then 2 else 1

end TypeDescriptor

/-- A method takes values, and returns one or nothing. -/
structure MethodDescriptor.InGrammar (descriptor : MethodDescriptor) : Prop where
  parameters : ∀ type ∈ descriptor.parameters, type.IsValue
  result : descriptor.result.IsResult

namespace TypeDescriptor

variable {type : TypeDescriptor}

theorem IsValue.slots_eq_width (h : type.IsValue) : type.slots = type.width := by
  rcases h with ⟨h⟩ | ⟨_, _, _⟩
  · cases h with
    | @base primitive notVoid =>
      cases primitive with
      | void => exact absurd rfl notVoid
      | _ => rfl
    | object => rfl
  · rfl

theorem IsResult.slots_eq (h : type.IsResult) :
    type.slots = if type = .base .void then 0 else type.width := by
  rcases h with rfl | h
  · rfl
  · have hvoid : type ≠ .base .void := by
      rintro rfl
      cases h with
      | element h =>
        cases h with
        | base notVoid => exact notVoid rfl
    rw [if_neg hvoid, h.slots_eq_width]

/-! ## Characters -/

/-- An element begins with its letter, which is neither a bracket nor a
parenthesis. -/
theorem IsElement.exists_render (h : type.IsElement) :
    ∃ c rest, type.render = c :: rest ∧ c ≠ '[' ∧ c ≠ ')' := by
  cases h with
  | @base primitive _ =>
    refine ⟨primitive.letter, [], rfl, ?_, ?_⟩ <;> cases primitive <;> decide
  | object => exact ⟨'L', _, rfl, by decide, by decide⟩

theorem IsElement.not_mem_render (h : type.IsElement) : ')' ∉ type.render := by
  cases h with
  | @base primitive _ => cases primitive <;> decide
  | object noSemicolon noParenthesis => simp [render, noParenthesis]

/-- An array begins with a bracket. -/
theorem render_array {dimensions : Nat} (pos : 0 < dimensions) (type : TypeDescriptor) :
    (array dimensions type).render =
      '[' :: (List.replicate (dimensions - 1) '[' ++ type.render) := by
  obtain ⟨others, rfl⟩ : ∃ others, dimensions = others + 1 := ⟨dimensions - 1, by omega⟩
  rfl

theorem IsValue.exists_render (h : type.IsValue) :
    ∃ c rest, type.render = c :: rest ∧ c ≠ ')' := by
  cases h with
  | element h =>
    obtain ⟨c, rest, hrender, -, hc⟩ := h.exists_render
    exact ⟨c, rest, hrender, hc⟩
  | array _ pos _ => exact ⟨'[', _, render_array pos _, by decide⟩

theorem IsValue.head?_render_ne (h : type.IsValue) (rest : List Char) :
    ¬(type.render ++ rest).head? = some ')' := by
  obtain ⟨c, later, hrender, hc⟩ := h.exists_render
  rw [hrender]
  simpa using hc

theorem IsValue.not_mem_render (h : type.IsValue) : ')' ∉ type.render := by
  cases h with
  | element h => exact h.not_mem_render
  | array element pos le => simp [render, element.not_mem_render]

theorem IsResult.render_ne_nil (h : type.IsResult) : type.render ≠ [] := by
  rcases h with rfl | h
  · exact List.cons_ne_nil _ _
  · obtain ⟨c, later, hrender, -⟩ := h.exists_render
    rw [hrender]
    exact List.cons_ne_nil _ _

theorem IsResult.not_mem_render (h : type.IsResult) : ')' ∉ type.render := by
  rcases h with rfl | h
  · decide
  · exact h.not_mem_render

/-! ## Reading -/

/-- What stands behind the first `c`, with it. -/
private theorem dropWhile_ne_append {α : Type} [DecidableEq α] {c : α} {front : List α}
    (h : c ∉ front) (behind : List α) :
    (front ++ c :: behind).dropWhile (· ≠ c) = c :: behind := by
  rw [List.dropWhile_append_of_pos]
  · simp
  · intro x hx
    simpa using fun heq : x = c => h (heq ▸ hx)

/-- An element is read, whatever stands behind it. -/
theorem readElement_render (h : type.IsElement) (rest : List Char) :
    readElement (type.render ++ rest) = .ok (type, rest) := by
  cases h with
  | base notVoid => simp [render, readElement]
  | @object name noSemicolon _ =>
    have htext : (object name).render ++ rest = 'L' :: (name ++ ';' :: rest) := by simp [render]
    have hletter : BaseType.ofLetter? 'L' = none := rfl
    rw [htext, readElement]
    simp only [hletter, if_true, dropWhile_ne_append noSemicolon, takeWhile_ne_append noSemicolon]

/-- The brackets of a text, counted where an element follows. -/
theorem read_brackets (element : type.IsElement) (dimensions : Nat) (rest : List Char) :
    read (List.replicate dimensions '[' ++ (type.render ++ rest)) =
      if dimensions = 0 then .ok (type, rest)
      else if 255 < dimensions then .error .tooManyDimensions
      else .ok (.array dimensions type, rest) := by
  obtain ⟨c, later, hrender, hbracket, hclosing⟩ := element.exists_render
  have hall : ∀ c ∈ List.replicate dimensions '[', decide (c = '[') = true := fun c hc =>
    decide_eq_true (List.eq_of_mem_replicate hc)
  have hbefore : (List.replicate dimensions '[' ++ (type.render ++ rest)).takeWhile (· = '[') =
      List.replicate dimensions '[' := by
    rw [List.takeWhile_append_of_pos hall, hrender]
    simp [hbracket]
  have hbehind : (List.replicate dimensions '[' ++ (type.render ++ rest)).dropWhile (· = '[') =
      type.render ++ rest := by
    rw [List.dropWhile_append_of_pos hall, hrender]
    simp [hbracket]
  have hopen : ¬(type.render ++ rest).head? = some ')' := by
    rw [hrender]
    simpa using hclosing
  unfold read
  simp only [hbefore, hbehind, List.length_replicate, if_neg hopen, readElement_render element]
  rfl

theorem read_render (h : type.IsValue) (rest : List Char) :
    read (type.render ++ rest) = .ok (type, rest) := by
  cases h with
  | element h => exact read_brackets h 0 rest
  | @array dimensions type element pos le =>
    have hread := read_brackets element dimensions rest
    rw [if_neg (by omega), if_neg (by omega)] at hread
    rw [render, List.append_assoc]
    exact hread

end TypeDescriptor

namespace MethodDescriptor

open TypeDescriptor

/-- Where a type is read, the parameter list goes on behind it. -/
theorem readParameters_of_read {text after : List Char} {type : TypeDescriptor}
    (hread : TypeDescriptor.read text = .ok (type, after)) (hopen : ¬text.head? = some ')') :
    readParameters text =
      readParameters after >>= fun (types, rest) => .ok (type :: types, rest) := by
  rw [readParameters.eq_def]
  split
  · cases hread
  · exact absurd rfl hopen
  · split
    · rename_i hfault
      rw [hread] at hfault
      cases hfault
    · rename_i hother
      rw [hread] at hother
      cases hother
      rfl

/-- The types in front of a closing parenthesis are read one by one. -/
theorem readParameters_render {types : List TypeDescriptor} (h : ∀ type ∈ types, type.IsValue)
    (rest : List Char) :
    readParameters (types.flatMap TypeDescriptor.render ++ ')' :: rest) = .ok (types, rest) := by
  induction types with
  | nil => simp [readParameters]
  | cons type types ih =>
    obtain ⟨htype, htypes⟩ := List.forall_mem_cons.1 h
    rw [List.flatMap_cons, List.append_assoc,
      readParameters_of_read (read_render htype _) (htype.head?_render_ne _), ih htypes]
    rfl

theorem readResult_render {type : TypeDescriptor} (h : type.IsResult) :
    readResult type.render = .ok type := by
  rcases h with rfl | h
  · rfl
  · have hread := read_render h []
    have hopen := h.head?_render_ne []
    rw [List.append_nil] at hread hopen
    rw [readResult, if_neg hopen, hread]
    rfl

/-- The types of a signature are read back from its text. -/
theorem read_render {descriptor : MethodDescriptor} (h : descriptor.InGrammar) :
    read descriptor.render = .ok descriptor := by
  unfold read render
  simp only [List.cons_append, readParameters_render h.parameters, bind, Except.bind,
    readResult_render h.result]

/-! ## The views -/

variable {descriptor : MethodDescriptor}

theorem totalSlots_eq_sum_width {types : List TypeDescriptor} (h : ∀ type ∈ types, type.IsValue) :
    totalSlots types = (types.map width).sum := by
  induction types with
  | nil => rfl
  | cons type types ih =>
    obtain ⟨htype, htypes⟩ := List.forall_mem_cons.1 h
    rw [totalSlots, ih htypes, htype.slots_eq_width, List.map_cons, List.sum_cons]

theorem callSlots_render (h : descriptor.InGrammar) :
    callSlots (String.ofList descriptor.render) =
      .ok ⟨(descriptor.parameters.map width).sum,
        if descriptor.result = .base .void then 0 else descriptor.result.width⟩ := by
  unfold callSlots
  rw [String.toList_ofList, read_render h]
  simp only [slots, totalSlots_eq_sum_width h.parameters, h.result.slots_eq]

theorem writesParameters_render (h : descriptor.InGrammar) :
    WritesParameters (String.ofList descriptor.render)
      (String.ofList (descriptor.parameters.flatMap TypeDescriptor.render)) := by
  refine ⟨?_, String.ofList descriptor.result.render, ?_⟩
  · rw [String.toList_ofList, List.mem_flatMap]
    rintro ⟨type, htype, hmem⟩
    exact (h.parameters type htype).not_mem_render hmem
  · rw [← String.toList_inj]
    simp [render]

theorem writesResult_render (h : descriptor.InGrammar) :
    WritesResult (String.ofList descriptor.render) (String.ofList descriptor.result.render) := by
  refine ⟨?_, ?_, String.ofList
    ('(' :: descriptor.parameters.flatMap TypeDescriptor.render), ?_⟩
  · intro hempty
    have hnil := congrArg String.toList hempty
    rw [String.toList_ofList] at hnil
    exact h.result.render_ne_nil hnil
  · rw [String.toList_ofList]
    exact h.result.not_mem_render
  · rw [← String.toList_inj]
    simp [render]

end MethodDescriptor

theorem fieldSlots_render {type : TypeDescriptor} (h : type.IsValue) :
    fieldSlots (String.ofList type.render) = type.slots := by
  rw [h.slots_eq_width]
  unfold fieldSlots
  rw [String.toList_ofList]
  cases h with
  | element h =>
    cases h with
    | @base primitive _ => cases primitive <;> rfl
    | object => rfl
  | array _ pos _ =>
    rw [TypeDescriptor.render_array pos]
    rfl

/-- On the text of every signature of the grammar, the views agree.

* The slots of a call are the widths of the parameters and that of the result.
* The cuts give the text of the parameters and that of the result.
* A field takes as many slots as a parameter of its type. -/
theorem views_agree {descriptor : MethodDescriptor} (h : descriptor.InGrammar) :
    callSlots (String.ofList descriptor.render) =
        .ok ⟨(descriptor.parameters.map TypeDescriptor.width).sum,
          if descriptor.result = .base .void then 0 else descriptor.result.width⟩ ∧
      parametersText? (String.ofList descriptor.render) =
        some (String.ofList (descriptor.parameters.flatMap TypeDescriptor.render)) ∧
      returnText? (String.ofList descriptor.render) =
        some (String.ofList descriptor.result.render) ∧
      ∀ type : TypeDescriptor, type.IsValue →
        fieldSlots (String.ofList type.render) = type.slots ∧ type.slots = type.width :=
  ⟨descriptor.callSlots_render h,
    parametersText?_eq_some_iff.2 (descriptor.writesParameters_render h),
    returnText?_eq_some_iff.2 (descriptor.writesResult_render h),
    fun _ htype => ⟨fieldSlots_render htype, htype.slots_eq_width⟩⟩

/-- A signature with wide values, arrays of them, and class names that look like
types. -/
def misleading : MethodDescriptor where
  parameters := [.base .long, .array 2 (.base .double), .object "D(J".toList, .base .double]
  result := .array 1 (.object "V".toList)

theorem misleading_views_agree :
    misleading.InGrammar ∧ String.ofList misleading.render = "(J[[DLD(J;D)[LV;" ∧
      callSlots "(J[[DLD(J;D)[LV;" = .ok ⟨6, 1⟩ ∧
      parametersText? "(J[[DLD(J;D)[LV;" = some "J[[DLD(J;D" ∧
      returnText? "(J[[DLD(J;D)[LV;" = some "[LV;" ∧
      (TypeDescriptor.array 2 (.base .double)).IsValue ∧ fieldSlots "[[D" = 1 := by
  have hgrammar : misleading.InGrammar := by
    refine ⟨?_, .inr (.array (.object (by decide) (by decide)) (by decide) (by decide))⟩
    simp only [misleading, List.forall_mem_cons, List.not_mem_nil, false_implies, implies_true,
      and_true]
    exact ⟨.element (.base (by decide)), .array (.base (by decide)) (by decide) (by decide),
      .element (.object (by decide) (by decide)), .element (.base (by decide))⟩
  have harray : (TypeDescriptor.array 2 (.base .double)).IsValue :=
    .array (.base (by decide)) (by decide) (by decide)
  obtain ⟨hslots, hparameters, hresult, hfields⟩ := views_agree hgrammar
  exact ⟨hgrammar, by decide, hslots, hparameters, hresult, harray, (hfields _ harray).1⟩

end BytecodeLint
