import BytecodeLint.Proofs.RoundTrip

/-!
# The operands that opcodes take

The decoder chooses the operand of an instruction by the format of its
opcode.  What an opcode needs as its operand is another table, which has to
say the same: an effect counts the slots of a call by its call site, and the
walk follows the targets of a jump.

There are three groups.

* `OperandKind` is the shape of an operand, and `Opcode.operandKind` the one
  that an opcode needs.  An instruction whose operand has it `Fits`.
* What an instruction that fits can rely on.
* `kind_of_decodeOperand` gives the kind of operand that a format leads to,
  and `operandKind_of_format` says that it is the one needed.
-/

namespace BytecodeLint

/-! ## Kinds of operands -/

/-- The shape of an operand. -/
inductive OperandKind
  | none
  | call (kind : CallKind)
  | dynamicCall
  | field
  | constant
  | localVar
  | branch
  | switch
  | type
  | arrays
  deriving DecidableEq, Repr

def Operand.kind : Operand → OperandKind
  | none => .none
  | call site => .call site.kind
  | dynamicCall .. => .dynamicCall
  | field _ => .field
  | constant _ => .constant
  | localVar _ => .localVar
  | branch _ => .branch
  | switch .. => .switch
  | type _ => .type
  | arrays .. => .arrays

/-- The operand that an opcode needs.  A load or store of a local variable
needs its index, whether the opcode holds it or not. -/
def Opcode.operandKind (op : Opcode) : OperandKind :=
  if op.within 0x01 ldc2W then .constant
  else if op.within 0x15 0x2d || op.within 0x36 0x4e || op == iinc || op == ret then .localVar
  else if op.within 0x99 jsr || op.within ifnull jsrW then .branch
  else if op.isSwitch then .switch
  else if op.within getstatic putfield then .field
  else if op == invokevirtual then .call .virtual
  else if op == invokespecial then .call .special
  else if op == invokestatic then .call .static
  else if op == invokeinterface then .call .interface
  else if op == invokedynamic then .dynamicCall
  else if op == new || op == anewarray || op == checkcast || op == instanceof then .type
  else if op == multianewarray then .arrays
  else .none

/-- The operand is what the opcode needs. -/
def Instruction.Fits (inst : Instruction) : Prop :=
  inst.operand.kind = inst.opcode.operandKind

instance (inst : Instruction) : Decidable inst.Fits :=
  inferInstanceAs (Decidable (_ = _))

/-! ## Instructions that fit -/

/-- What holds of every byte holds of every opcode. -/
theorem Opcode.forall_of_byte {motive : Opcode → Prop}
    (h : ∀ byte : Fin 256, motive (UInt8.ofNat byte)) (op : Opcode) : motive op := by
  have hop := h ⟨op.toNat, op.toNat_lt⟩
  rwa [UInt8.ofNat_toNat] at hop

/-- The slots of the effect can be counted with an operand of that kind. -/
def Effect.isMetBy : Effect → OperandKind → Bool
  | getStatic, kind | putStatic, kind | getField, kind | putField, kind => kind == .field
  | invoke, .call _ => true
  | invoke, _ => false
  | invokeDynamic, kind => kind == .dynamicCall
  | allocateArrays, kind => kind == .arrays
  | _, _ => true

theorem Opcode.isMetBy_operandKind : ∀ op : Opcode, ∀ effect ∈ op.effect?,
    effect.isMetBy op.operandKind = true :=
  Opcode.forall_of_byte (by decide +kernel)

/-- Control that does not go on leaves the method or goes to a target. -/
theorem Opcode.leaves_of_not_fallsThrough : ∀ op : Opcode, op.fallsThrough = false →
    op.isReturn = true ∨ op = athrow ∨ op = ret ∨ op.operandKind = .branch ∨
      op.operandKind = .switch :=
  Opcode.forall_of_byte (by decide +kernel)

theorem Opcode.isSwitch_of_operandKind : ∀ op : Opcode, op.operandKind = .switch →
    op.isSwitch = true :=
  Opcode.forall_of_byte (by decide +kernel)

namespace Instruction

variable {inst : Instruction}

theorem countSlots_ne_lacks {effect : Effect} (h : effect.isMetBy inst.operand.kind = true)
    (needed : NeededOperand) : inst.countSlots effect ≠ .error (inst.lacks needed) := by
  obtain ⟨offset, opcode, operand⟩ := inst
  cases effect with
  | invoke =>
    cases operand with
    | call site =>
      simp only [countSlots, callEffect]
      split <;> simp [lacks]
    | _ => cases h
  | invokeDynamic =>
    cases operand with
    | dynamicCall name descriptor =>
      simp only [countSlots, callEffect]
      split <;> simp [lacks]
    | _ => cases h
  | allocateArrays =>
    cases operand with
    | arrays className dimensions => simp [countSlots]
    | _ => cases h
  | getStatic | putStatic | getField | putField =>
    cases operand with
    | field ref => simp [countSlots, accessedSlots, field?, bind, Except.bind, pure, Except.pure]
    | _ => cases h
  | _ => simp [countSlots]

/-- No operand is found missing. -/
theorem Fits.stackEffect_ne_lacks (h : inst.Fits) (needed : NeededOperand) :
    inst.stackEffect ≠ .error (inst.lacks needed) := by
  unfold stackEffect Instruction.effect
  cases heffect : inst.opcode.effect? with
  | none => simp [bind, Except.bind, lacks]
  | some effect =>
    have hmet := Opcode.isMetBy_operandKind inst.opcode effect heffect
    rw [← h] at hmet
    exact countSlots_ne_lacks hmet needed

/-- Where control goes on is known. -/
theorem Fits.targets_ne_nil (h : inst.Fits) (hleaves : inst.fallsThrough = false) :
    inst.opcode.isReturn = true ∨ inst.opcode = Opcode.athrow ∨ inst.opcode = Opcode.ret ∨
      inst.targets ≠ [] := by
  obtain hreturn | hthrow | hret | hbranch | hswitch :=
    Opcode.leaves_of_not_fallsThrough inst.opcode hleaves
  · exact .inl hreturn
  · exact .inr (.inl hthrow)
  · exact .inr (.inr (.inl hret))
  all_goals
    refine .inr (.inr (.inr ?_))
    obtain ⟨offset, opcode, operand⟩ := inst
    cases operand <;> simp_all [Fits, Operand.kind, targets, Operand.targets]

end Instruction

/-! ## The operands of formats -/

namespace Bytecode

/-- The kind of operand that is decoded for an opcode of the format. -/
def Format.operandKind (op : Opcode) : Format → OperandKind
  | bare => (heldOperand op).kind
  | byteValue | shortValue | shortConstant | constant => .constant
  | localVar | increment | wide => .localVar
  | jump | longJump => .branch
  | tableSwitch | lookupSwitch => .switch
  | field => .field
  | call kind _ => .call kind
  | dynamicCall => .dynamicCall
  | type => .type
  | primitive => .none
  | arrays => .arrays

/-- But for the marker, the operand of an opcode is the one that it needs. -/
theorem operandKind_of_format : ∀ op : Opcode, ∀ format ∈ Opcode.format? op, format ≠ .wide →
    format.operandKind op = op.operandKind :=
  Opcode.forall_of_byte (by decide +kernel)

/-- Only the marker has the format of the marker. -/
theorem eq_wide_of_format : ∀ op : Opcode, Opcode.format? op = some .wide → op = Opcode.wide :=
  Opcode.forall_of_byte (by decide +kernel)

variable {pool : ConstantPool} {offset : Nat} {code : List UInt8} {operand : Operand}

theorem length_of_readDistances {gap count : Nat} {distances : List Int}
    (h : readDistances gap count code = .ok distances) : distances.length = count := by
  induction count generalizing code distances with
  | zero =>
    cases h
    rfl
  | succ count ih =>
    obtain ⟨distance, _, h⟩ := exists_ok_of_bind h
    obtain ⟨rest, hrest, h⟩ := exists_ok_of_bind h
    cases h
    rw [List.length_cons, ih hrest]

theorem switchOperand_ok {skip gap count : Nat}
    (h : switchOperand offset skip gap count code = .ok operand) :
    ∃ default targets, operand = .switch default targets ∧ targets.length = count := by
  obtain ⟨distance, _, h⟩ := exists_ok_of_bind h
  obtain ⟨default, _, h⟩ := exists_ok_of_bind h
  obtain ⟨distances, hdistances, h⟩ := exists_ok_of_bind h
  obtain ⟨targets, htargets, h⟩ := exists_ok_of_bind h
  cases h
  refine ⟨default, targets, rfl, ?_⟩
  rw [← (mapM_eq_ok_iff.1 htargets).length_eq, length_of_readDistances hdistances]

/-- An operand that is decoded has the kind that its format leads to. -/
theorem kind_of_decodeOperand {op : Opcode} {format : Format}
    (h : decodeOperand pool offset op code format = .ok operand) :
    operand.kind = format.operandKind op := by
  cases format with
  | bare | primitive =>
    cases h
    rfl
  | byteValue | shortValue | constant | localVar | increment | field | call | dynamicCall | type
  | wide =>
    obtain ⟨found, _, h⟩ := exists_ok_of_bind h
    cases h
    rfl
  | shortConstant | jump | longJump | arrays =>
    obtain ⟨first, _, h⟩ := exists_ok_of_bind h
    obtain ⟨second, _, h⟩ := exists_ok_of_bind h
    cases h
    rfl
  | tableSwitch | lookupSwitch =>
    obtain ⟨count, _, h⟩ := exists_ok_of_bind h
    obtain ⟨default, targets, rfl, _⟩ := switchOperand_ok h
    rfl

end Bytecode

end BytecodeLint
