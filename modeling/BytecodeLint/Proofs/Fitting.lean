import BytecodeLint.Proofs.Tiling

/-!
# Decoded operands fit their opcodes

Every instruction of accepted code has the operand that its opcode needs, so
that its slots can be counted and its targets are known.  There is one
exception.  Behind a `wide` marker any opcode is accepted, and it is given a
local variable, which only the loads and stores of local variables, the
increment and `ret` have a use for.

There are two groups.

* `fits_iff_of_decode` is the result.
* A call and a jump behind a marker, which do not fit.
-/

namespace BytecodeLint.Bytecode

/-! ## Instructions of accepted code -/

variable {pool : ConstantPool} {code : List UInt8} {inst : Instruction} {insts : List Instruction}

/-- The byte at the offset is a marker, and the opcode stands behind it. -/
def IsWide (code : List UInt8) (inst : Instruction) : Prop :=
  code[inst.offset]? = some Opcode.wide

theorem StandsIn.isWide_iff {op : Opcode} {tail : List UInt8}
    (h : StandsIn pool code op tail inst) : IsWide code inst ↔ op = Opcode.wide := by
  unfold IsWide
  rw [h.getElem?, Option.some.injEq]

theorem StandsIn.fits_iff {op : Opcode} {tail : List UInt8}
    (h : StandsIn pool code op tail inst) :
    inst.Fits ↔ (IsWide code inst → inst.opcode.operandKind = .localVar) := by
  have hopcode := h.opcode
  rw [h.isWide_iff]
  unfold Instruction.Fits
  split at hopcode
  · rename_i hwide
    rw [hopcode.2]
    exact ⟨fun hfits _ => hfits.symm, fun hlocal => (hlocal hwide).symm⟩
  · rename_i hnot
    rw [hopcode.1, hopcode.2]
    exact ⟨fun _ hwide => absurd hwide hnot, fun _ => rfl⟩

/-- An instruction of accepted code fits, unless it stands behind a marker and
has nothing to do with local variables.  Where it fits, no operand is missing
when its slots are counted, and control that does not go on behind it returns,
throws or has its targets listed. -/
theorem fits_iff_of_decode (hdecode : decode pool code = .ok insts) (hinst : inst ∈ insts) :
    (inst.Fits ↔ (IsWide code inst → inst.opcode.operandKind = .localVar)) ∧
      (inst.Fits → (∀ needed, inst.stackEffect ≠ .error (inst.lacks needed)) ∧
        (inst.fallsThrough = false → inst.opcode.isReturn = true ∨ inst.opcode = Opcode.athrow ∨
          inst.opcode = Opcode.ret ∨ inst.targets ≠ [])) := by
  obtain ⟨op, tail, hstands⟩ := (tiled_of_decodeFrom hdecode).standsIn hinst
  refine ⟨hstands.fits_iff, fun hfits => ⟨hfits.stackEffect_ne_lacks, ?_⟩⟩
  intro hleaves
  exact hfits.targets_ne_nil hleaves

/-- A load of the local variable 256, and a return of it. -/
def wideLoad : List UInt8 :=
  [0xc4, 0x15, 1, 0, 0xac]

theorem wideLoad_fits :
    decode #[] wideLoad = .ok [⟨0, 0x15, .localVar 256⟩, ⟨4, .ireturn, .none⟩] ∧
      IsWide wideLoad ⟨0, 0x15, .localVar 256⟩ ∧
      (⟨0, 0x15, .localVar 256⟩ : Instruction).Fits ∧
      ∀ needed, (⟨0, 0x15, .localVar 256⟩ : Instruction).stackEffect ≠
        .error (.lacksOperand 0x15 0 needed) := by
  have hdecode : decode #[] wideLoad =
      .ok [⟨0, 0x15, .localVar 256⟩, ⟨4, .ireturn, .none⟩] :=
    decodeFrom_cons rfl (decodeFrom_cons rfl (decodeFrom_nil _ _))
  obtain ⟨hiff, hcounted⟩ := fits_iff_of_decode hdecode (List.mem_cons_self ..)
  have hfits := hiff.2 fun _ => by decide
  exact ⟨hdecode, rfl, hfits, (hcounted hfits).1⟩

/-! ## Markers that are put before any opcode -/

/-- A marker before a virtual call, and one before a jump. -/
def wideCallAndJump : List UInt8 :=
  [0xc4, 0xb6, 0, 1, 0xc4, 0xa7, 0, 1]

/-- The call has no call site, so that its slots cannot be counted, and nobody
knows where the jump goes. -/
theorem wideCallAndJump_misfit :
    decode #[] wideCallAndJump =
        .ok [⟨0, .invokevirtual, .localVar 1⟩, ⟨4, .goto, .localVar 1⟩] ∧
      ¬ (⟨0, .invokevirtual, .localVar 1⟩ : Instruction).Fits ∧
      (⟨0, .invokevirtual, .localVar 1⟩ : Instruction).stackEffect =
        .error (.lacksOperand .invokevirtual 0 .callSite) ∧
      (⟨4, .goto, .localVar 1⟩ : Instruction).fallsThrough = false ∧
      (⟨4, .goto, .localVar 1⟩ : Instruction).targets = [] := by
  have hdecode : decode #[] wideCallAndJump =
      .ok [⟨0, .invokevirtual, .localVar 1⟩, ⟨4, .goto, .localVar 1⟩] :=
    decodeFrom_cons rfl (decodeFrom_cons rfl (decodeFrom_nil _ _))
  exact ⟨hdecode, by decide, by decide, by decide, rfl⟩

end BytecodeLint.Bytecode
