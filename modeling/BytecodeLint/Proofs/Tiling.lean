import BytecodeLint.Proofs.Operands

/-!
# Instructions tile the code

The decoder takes the length of each instruction from the code itself, and
for a switch from numbers of 32 bits that may say anything.  Whatever the
bytes are, it comes to an end.  If it accepts them, its instructions lie one
behind another from the first byte to the last, and each was decoded from its
own bytes alone.  If it refuses them, it says so at the instruction where the
accepted ones end.

There are six groups.

* Numbers, and the lengths made of them, are the same with more bytes behind.
* `Tile` says that some bytes are one instruction, whatever stands behind
  them, and `Tiled` that instructions follow each other up to the end.
* The decoder gives a tiling, and a tiling is what it decodes.
* The offsets of a tiling: which bytes belong to which instruction.
* The opcodes of a tiling and its switches.
* `decode_tiles` is the result, for code that is accepted and code that is
  refused.
-/

namespace BytecodeLint.Bytecode

/-! ## Numbers with more bytes behind -/

section Numbers

variable {width skip : Nat} {bytes rest : List UInt8}

theorem readUnsigned_append (h : skip + width ≤ bytes.length) :
    readUnsigned width skip (bytes ++ rest) = readUnsigned width skip bytes := by
  have hfield : ((bytes ++ rest).drop skip).take width = (bytes.drop skip).take width := by
    rw [List.drop_append_of_le_length (by omega), List.take_append_of_le_length]
    simp only [List.length_drop]
    omega
  unfold readUnsigned
  rw [hfield]

theorem readSigned_append (h : skip + width ≤ bytes.length) :
    readSigned width skip (bytes ++ rest) = readSigned width skip bytes := by
  unfold readSigned
  rw [readUnsigned_append h]

/-- A number is read at the same place of all of the code. -/
theorem readSigned_drop (width skip : Nat) (code : List UInt8) (offset : Nat) :
    readSigned width skip (code.drop offset) = readSigned width (offset + skip) code := by
  unfold readSigned readUnsigned
  rw [List.drop_drop]

theorem tableCount_append (h : skip + 12 ≤ bytes.length) :
    tableCount skip (bytes ++ rest) = tableCount skip bytes := by
  unfold tableCount
  rw [readSigned_append (by omega), readSigned_append (by omega)]

theorem pairCount_append (h : skip + 8 ≤ bytes.length) :
    pairCount skip (bytes ++ rest) = pairCount skip bytes := by
  unfold pairCount
  rw [readSigned_append (by omega)]

end Numbers

theorem tableSwitch_length {offset length : Nat} {code : List UInt8}
    (h : Format.length offset code .tableSwitch = .ok length) :
    ∃ count, tableCount (switchBase offset) code = .ok count ∧
      length = switchBase offset + 12 + count * 4 := by
  obtain ⟨count, hcount, h⟩ := exists_ok_of_bind h
  cases h
  exact ⟨count, hcount, rfl⟩

theorem lookupSwitch_length {offset length : Nat} {code : List UInt8}
    (h : Format.length offset code .lookupSwitch = .ok length) :
    ∃ count, pairCount (switchBase offset) code = .ok count ∧
      length = switchBase offset + 8 + count * 8 := by
  obtain ⟨count, hcount, h⟩ := exists_ok_of_bind h
  cases h
  exact ⟨count, hcount, rfl⟩

theorem four_le_wide_length {offset length : Nat} {code : List UInt8}
    (h : Format.length offset code .wide = .ok length) : 4 ≤ length := by
  unfold Format.length at h
  cases hop : code[1]? with
  | none =>
    rw [hop] at h
    cases h
  | some op =>
    rw [hop] at h
    cases h
    split <;> omega

/-- A length is found in the bytes that it counts. -/
theorem Format.length_append {format : Format} {offset : Nat} {bytes back : List UInt8}
    (h : format.length offset (bytes ++ back) = .ok bytes.length) (rest : List UInt8) :
    format.length offset (bytes ++ rest) = .ok bytes.length := by
  -- A length that is read is at least as much as the bytes it is read from.
  cases format with
  | tableSwitch =>
    obtain ⟨count, hcount, hlength⟩ := tableSwitch_length h
    rw [tableCount_append (by omega)] at hcount
    rw [Format.length, tableCount_append (by omega), hcount, hlength]
    rfl
  | lookupSwitch =>
    obtain ⟨count, hcount, hlength⟩ := lookupSwitch_length h
    rw [pairCount_append (by omega)] at hcount
    rw [Format.length, pairCount_append (by omega), hcount, hlength]
    rfl
  | wide =>
    have hfour := four_le_wide_length h
    have hopcode (back : List UInt8) : (bytes ++ back)[1]? = bytes[1]? :=
      List.getElem?_append_left (by omega)
    simp only [Format.length, hopcode] at h ⊢
    exact h
  | _ => exact h

/-! ## Tiles -/

/-- The bytes `op :: tail` are the instruction, whatever stands behind
them. -/
structure Tile (pool : ConstantPool) (op : Opcode) (tail : List UInt8) (format : Format)
    (inst : Instruction) : Prop where
  known : Opcode.format? op = some format
  whole : ∀ rest, format.length inst.offset (op :: tail ++ rest) = .ok (op :: tail).length
  opcode : inst.opcode = effectiveOpcode op (op :: tail) format
  operand : decodeOperand pool inst.offset op (op :: tail) format = .ok inst.operand

/-- The code, which starts at an offset, is made of instructions one behind
another. -/
inductive Tiled (pool : ConstantPool) : Nat → List UInt8 → List Instruction → Prop
  | nil {offset : Nat} : Tiled pool offset [] []
  | cons {op : Opcode} {tail rest : List UInt8} {format : Format} {inst : Instruction}
      {later : List Instruction} (tile : Tile pool op tail format inst)
      (behind : Tiled pool (inst.offset + (op :: tail).length) rest later) :
      Tiled pool inst.offset (op :: tail ++ rest) (inst :: later)

variable {pool : ConstantPool} {offset : Nat} {code : List UInt8} {inst : Instruction}
  {insts : List Instruction}

section Tile

variable {op : Opcode} {tail : List UInt8} {format : Format}

theorem Tile.decodes (tile : Tile pool op tail format inst) (rest : List UInt8) :
    decodeInstruction pool inst.offset (op :: tail ++ rest) =
      .ok (inst, (op :: tail).length) := by
  rw [decodeInstruction_of_format tile.known (tile.whole rest) tile.operand, ← tile.opcode]

theorem Tile.instructionLength (tile : Tile pool op tail format inst) (rest : List UInt8) :
    instructionLength inst.offset (op :: tail ++ rest) = .ok (op :: tail).length := by
  have hwhole := tile.whole rest
  rw [List.cons_append] at hwhole ⊢
  unfold Bytecode.instructionLength
  simp only [tile.known]
  exact hwhole

end Tile

/-! ## The decoder gives a tiling -/

/-- What it takes to decode an instruction. -/
theorem decodeInstruction_ok {length : Nat}
    (h : decodeInstruction pool offset code = .ok (inst, length)) :
    ∃ op behind format, code = op :: behind ∧ Opcode.format? op = some format ∧
      format.length offset code = .ok length ∧ 0 < length ∧ length ≤ code.length ∧
      inst.offset = offset ∧ inst.opcode = effectiveOpcode op (code.take length) format ∧
      decodeOperand pool offset op (code.take length) format = .ok inst.operand := by
  unfold decodeInstruction at h
  split at h
  · cases h
  · rename_i op behind
    split at h
    · cases h
    · rename_i format hformat
      obtain ⟨size, hlength, h⟩ := exists_ok_of_bind h
      simp only at h
      split at h
      · cases h
      · rename_i hsize
        obtain ⟨operand, hoperand, h⟩ := exists_ok_of_bind h
        cases h
        rw [List.length_take] at hsize
        refine ⟨op, behind, format, rfl, hformat, hlength, ?_, ?_, rfl, rfl, hoperand⟩
        all_goals omega

/-- A decoded instruction was decoded from the bytes that its length
counts. -/
theorem tile_of_decodeInstruction {length : Nat}
    (h : decodeInstruction pool offset code = .ok (inst, length)) :
    ∃ op tail format, code.take length = op :: tail ∧ (op :: tail).length = length ∧
      inst.offset = offset ∧ Tile pool op tail format inst := by
  obtain ⟨op, behind, format, rfl, hformat, hlength, hpos, hle, rfl, hopcode, hoperand⟩ :=
    decodeInstruction_ok h
  obtain ⟨size, rfl⟩ : ∃ size, length = size + 1 := ⟨length - 1, by omega⟩
  have htake : (op :: behind).take (size + 1) = op :: behind.take size := List.take_succ_cons
  have hsize : (op :: behind.take size).length = size + 1 := by
    rw [← htake, List.length_take, Nat.min_eq_left hle]
  rw [htake] at hopcode hoperand
  refine ⟨op, behind.take size, format, htake, hsize, rfl, hformat, ?_, hopcode, hoperand⟩
  have hwhole : format.length inst.offset (op :: behind.take size ++ behind.drop size) =
      .ok (op :: behind.take size).length := by
    rw [List.cons_append, List.take_append_drop, hsize]
    exact hlength
  exact Format.length_append hwhole

theorem decodeFrom_of_ok {length : Nat}
    (h : decodeInstruction pool offset code = .ok (inst, length)) :
    decodeFrom pool offset code =
      (decodeFrom pool (offset + length) (code.drop length)).map (inst :: ·) := by
  cases code with
  | nil => cases h
  | cons op rest =>
    rw [decodeFrom]
    split
    · rename_i fault hfault
      rw [hfault] at h
      cases h
    · rename_i found size hfound
      rw [hfound] at h
      cases h
      rfl

@[simp] theorem decodeFrom_nil (pool : ConstantPool) (offset : Nat) :
    decodeFrom pool offset [] = .ok [] := by
  rw [decodeFrom]

/-- The instructions of some code, one after another. -/
theorem decodeFrom_cons {length : Nat} {later : List Instruction}
    (hfirst : decodeInstruction pool offset code = .ok (inst, length))
    (hlater : decodeFrom pool (offset + length) (code.drop length) = .ok later) :
    decodeFrom pool offset code = .ok (inst :: later) := by
  rw [decodeFrom_of_ok hfirst, hlater]
  rfl

theorem decodeFrom_of_error {fault : CodeFault} (hcode : code ≠ [])
    (h : decodeInstruction pool offset code = .error fault) :
    decodeFrom pool offset code = .error fault := by
  obtain ⟨op, rest, rfl⟩ := List.exists_cons_of_ne_nil hcode
  rw [decodeFrom]
  split
  · rename_i found hfound
    rw [hfound] at h
    cases h
    rfl
  · rename_i found size hfound
    rw [hfound] at h
    cases h

/-- The instructions of a tiling are decoded, and the decoder goes on behind
them. -/
theorem Tiled.decodeFrom_append (h : Tiled pool offset code insts) (rest : List UInt8) :
    decodeFrom pool offset (code ++ rest) =
      (decodeFrom pool (offset + code.length) rest).map (insts ++ ·) := by
  induction h with
  | nil =>
    rw [List.nil_append, List.length_nil, Nat.add_zero]
    cases decodeFrom pool _ rest <;> rfl
  | cons tile behind ih =>
    rename_i op tail back format inst later
    have hfirst := tile.decodes (back ++ rest)
    rw [List.append_assoc, decodeFrom_of_ok hfirst, List.drop_left, ih, List.length_append,
      ← Nat.add_assoc]
    cases decodeFrom pool _ rest <;> rfl

theorem Tiled.decodeFrom (h : Tiled pool offset code insts) :
    decodeFrom pool offset code = .ok insts := by
  have hend := h.decodeFrom_append []
  rw [List.append_nil, decodeFrom_nil] at hend
  rw [hend]
  exact congrArg Except.ok (List.append_nil insts)

/-- The decoder runs over instructions one behind another.  Either they are
all of the code, or it refuses what stands behind them. -/
theorem exists_tiled (pool : ConstantPool) (offset : Nat) (code : List UInt8) :
    ∃ front back insts, code = front ++ back ∧ Tiled pool offset front insts ∧
      (back = [] ∨ ∃ fault, back ≠ [] ∧
        decodeInstruction pool (offset + front.length) back = .error fault) := by
  -- The recursion is that of the decoder, which goes on behind each instruction.
  induction offset, code using decodeFrom.induct pool with
  | case1 offset => exact ⟨[], [], [], rfl, .nil, .inl rfl⟩
  | case2 offset op rest fault hfault =>
    exact ⟨[], op :: rest, [], rfl, .nil, .inr ⟨fault, List.cons_ne_nil _ _, hfault⟩⟩
  | case3 offset op rest inst length hinst ih =>
    obtain ⟨first, tail, format, htake, rfl, rfl, tile⟩ := tile_of_decodeInstruction hinst
    obtain ⟨front, back, later, hbehind, htiled, hend⟩ := ih
    refine ⟨first :: tail ++ front, back, inst :: later, ?_, .cons tile htiled, ?_⟩
    · calc op :: rest
        _ = (op :: rest).take (first :: tail).length ++ (op :: rest).drop (first :: tail).length :=
            (List.take_append_drop _ _).symm
        _ = first :: tail ++ front ++ back := by rw [htake, hbehind, List.append_assoc]
    · rw [List.length_append, ← Nat.add_assoc]
      exact hend

/-- What the decoder accepts are instructions one behind another. -/
theorem tiled_of_decodeFrom (h : decodeFrom pool offset code = .ok insts) :
    Tiled pool offset code insts := by
  obtain ⟨front, back, found, rfl, htiled, rfl | ⟨fault, hback, hfault⟩⟩ :=
    exists_tiled pool offset code
  · rw [List.append_nil] at h ⊢
    rw [htiled.decodeFrom] at h
    cases h
    exact htiled
  · rw [htiled.decodeFrom_append, decodeFrom_of_error hback hfault] at h
    cases h

/-! ## The offsets of a tiling -/

/-- The length of the instruction at `offset` of the code. -/
def lengthAt (code : List UInt8) (offset : Nat) : Except CodeFault Nat :=
  instructionLength offset (code.drop offset)

/-- The bytes from `start` to `stop` are as many as the instruction at `start`
has. -/
def Spans (code : List UInt8) (start stop : Nat) : Prop :=
  ∃ length, lengthAt code start = .ok length ∧ 0 < length ∧ stop = start + length

/-- Where the instructions start, and where the last one ends. -/
def boundaries (code : List UInt8) (insts : List Instruction) : List Nat :=
  insts.map (·.offset) ++ [code.length]

/-- The byte at `place` is one of the instruction. -/
def Covers (code : List UInt8) (place : Nat) (inst : Instruction) : Prop :=
  ∃ stop, Spans code inst.offset stop ∧ inst.offset ≤ place ∧ place < stop

section Tile

variable {op : Opcode} {tail : List UInt8} {format : Format}

theorem Tile.lengthAt {front rest : List UInt8} (tile : Tile pool op tail format inst)
    (hfront : front.length = inst.offset) :
    lengthAt (front ++ (op :: tail ++ rest)) inst.offset = .ok (op :: tail).length := by
  unfold Bytecode.lengthAt
  rw [List.drop_left' hfront]
  exact tile.instructionLength rest

end Tile

theorem Tiled.head_boundaries (h : Tiled pool offset code insts) :
    (insts.map (·.offset) ++ [offset + code.length]).head? = some offset := by
  cases h with
  | nil => rfl
  | cons => rfl

theorem Tiled.chain {front : List UInt8} (h : Tiled pool offset code insts)
    (hfront : front.length = offset) :
    (insts.map (·.offset) ++ [offset + code.length]).IsChain (Spans (front ++ code)) := by
  induction h generalizing front with
  | nil => exact List.isChain_singleton _
  | cons tile behind ih =>
    rename_i op tail rest format inst later
    have hbehind := @ih (front ++ op :: tail) (by rw [List.length_append, hfront])
    rw [List.append_assoc] at hbehind
    rw [List.length_append, ← Nat.add_assoc]
    refine List.isChain_cons.2 ⟨?_, hbehind⟩
    intro next hnext
    cases behind.head_boundaries.symm.trans hnext
    exact ⟨_, tile.lengthAt hfront, Nat.succ_pos _, rfl⟩

/-- Each byte is one of an instruction. -/
theorem Tiled.covered {front : List UInt8} {place : Nat} (h : Tiled pool offset code insts)
    (hfront : front.length = offset) (hfrom : offset ≤ place)
    (hto : place < offset + code.length) : ∃ inst ∈ insts, Covers (front ++ code) place inst := by
  induction h generalizing front with
  | nil =>
    rw [List.length_nil] at hto
    omega
  | cons tile behind ih =>
    rename_i op tail rest format inst later
    by_cases hplace : place < inst.offset + (op :: tail).length
    · exact ⟨inst, List.mem_cons_self .., _, ⟨_, tile.lengthAt hfront, Nat.succ_pos _, rfl⟩, hfrom,
        hplace⟩
    · have hlength : inst.offset + (op :: tail ++ rest).length =
          inst.offset + (op :: tail).length + rest.length := by
        rw [List.length_append, Nat.add_assoc]
      obtain ⟨other, hother, hcovers⟩ := @ih (front ++ op :: tail)
        (by rw [List.length_append, hfront]) (by omega) (by omega)
      rw [List.append_assoc] at hcovers
      exact ⟨other, List.mem_cons_of_mem _ hother, hcovers⟩

/-- Each instruction has a tile in the code. -/
theorem Tiled.exists_tile (h : Tiled pool offset code insts) (hinst : inst ∈ insts) :
    ∃ front op tail format back, code = front ++ (op :: tail ++ back) ∧
      inst.offset = offset + front.length ∧ Tile pool op tail format inst := by
  induction h with
  | nil => cases hinst
  | cons tile behind ih =>
    rename_i first after rest layout found later
    rcases List.mem_cons.1 hinst with rfl | hlater
    · exact ⟨[], first, after, layout, rest, rfl, rfl, tile⟩
    · obtain ⟨front, op, tail, format, back, rfl, hoffset, htile⟩ := ih hlater
      refine ⟨first :: after ++ front, op, tail, format, back, ?_, ?_, htile⟩
      · rw [List.append_assoc]
      · rw [hoffset, List.length_append, Nat.add_assoc]

/-! ## Opcodes and switches -/

section Tile

variable {op : Opcode} {tail : List UInt8} {format : Format}

/-- The opcode is the first byte, or the second one behind a marker. -/
theorem Tile.effective (tile : Tile pool op tail format inst) :
    if op = Opcode.wide then tail.head? = some inst.opcode ∧ inst.operand.kind = .localVar
    else inst.opcode = op ∧ inst.operand.kind = op.operandKind := by
  have hkind := kind_of_decodeOperand tile.operand
  have hopcode := tile.opcode
  split
  · rename_i hwide
    subst hwide
    obtain rfl : format = .wide := (Option.some.inj tile.known).symm
    cases tail with
    | nil => cases tile.whole []
    | cons inner rest => exact ⟨congrArg some hopcode.symm, hkind⟩
  · rename_i hnot
    have hformat : format ≠ .wide := by
      rintro rfl
      exact hnot (eq_wide_of_format op tile.known)
    rw [hkind, operandKind_of_format op format tile.known hformat]
    refine ⟨?_, rfl⟩
    rw [hopcode]
    cases format <;> first | rfl | exact absurd rfl hformat

end Tile

/-- A table switch has a target for each number of its range, and its length
holds that many. -/
def TableHolds (code : List UInt8) (inst : Instruction) : Prop :=
  ∃ low high default targets,
    readSigned 4 (inst.offset + (switchBase inst.offset + 4)) code = .ok low ∧
      readSigned 4 (inst.offset + (switchBase inst.offset + 8)) code = .ok high ∧
      inst.operand = .switch default targets ∧ (targets.length : Int) = high - low + 1 ∧
      lengthAt code inst.offset = .ok (switchBase inst.offset + 12 + targets.length * 4)

/-- A lookup switch has a target for each of its pairs, and its length holds
that many. -/
def PairsHold (code : List UInt8) (inst : Instruction) : Prop :=
  ∃ default targets,
    readSigned 4 (inst.offset + (switchBase inst.offset + 4)) code =
        .ok (targets.length : Int) ∧
      inst.operand = .switch default targets ∧
      lengthAt code inst.offset = .ok (switchBase inst.offset + 8 + targets.length * 8)

/-- The tile of the instruction stands in the code at the offset. -/
structure StandsIn (pool : ConstantPool) (code : List UInt8) (op : Opcode) (tail : List UInt8)
    (inst : Instruction) : Prop where
  tile : ∃ format, Tile pool op tail format inst
  behind : ∃ back, code.drop inst.offset = op :: tail ++ back
  within : inst.offset + (op :: tail).length ≤ code.length

theorem Tiled.standsIn (h : Tiled pool 0 code insts) (hinst : inst ∈ insts) :
    ∃ op tail, StandsIn pool code op tail inst := by
  obtain ⟨front, op, tail, format, back, rfl, hoffset, tile⟩ := h.exists_tile hinst
  rw [Nat.zero_add] at hoffset
  refine ⟨op, tail, ⟨format, tile⟩, ⟨back, List.drop_left' hoffset.symm⟩, ?_⟩
  simp only [List.length_append, hoffset]
  omega

namespace StandsIn

variable {op : Opcode} {tail : List UInt8}

theorem lengthAt (h : StandsIn pool code op tail inst) :
    lengthAt code inst.offset = .ok (op :: tail).length := by
  obtain ⟨⟨format, tile⟩, ⟨back, hback⟩, _⟩ := h
  unfold Bytecode.lengthAt
  rw [hback]
  exact tile.instructionLength back

theorem getElem? (h : StandsIn pool code op tail inst) : code[inst.offset]? = some op := by
  obtain ⟨_, ⟨back, hback⟩, _⟩ := h
  rw [← List.head?_drop, hback]
  rfl

theorem opcode (h : StandsIn pool code op tail inst) :
    if op = Opcode.wide then code[inst.offset + 1]? = some inst.opcode ∧
      inst.operand.kind = .localVar
    else inst.opcode = op ∧ inst.operand.kind = op.operandKind := by
  obtain ⟨⟨format, tile⟩, ⟨back, hback⟩, _⟩ := h
  have heffective := tile.effective
  split
  · rename_i hwide
    rw [if_pos hwide] at heffective
    obtain ⟨hopcode, hkind⟩ := heffective
    refine ⟨?_, hkind⟩
    cases tail with
    | nil => cases hopcode
    | cons inner rest =>
      rw [← List.getElem?_drop, hback]
      exact hopcode
  · rename_i hnot
    rwa [if_neg hnot] at heffective

/-- The instruction is decoded from its own bytes, whatever stands behind
them. -/
theorem decodes (h : StandsIn pool code op tail inst) (rest : List UInt8) :
    decodeInstruction pool inst.offset
        ((code.drop inst.offset).take (op :: tail).length ++ rest) =
      .ok (inst, (op :: tail).length) := by
  obtain ⟨⟨format, tile⟩, ⟨back, hback⟩, _⟩ := h
  rw [hback, List.take_left]
  exact tile.decodes rest

theorem tableHolds (h : StandsIn pool code Opcode.tableswitch tail inst) :
    TableHolds code inst := by
  have hlengthAt := h.lengthAt
  obtain ⟨⟨format, tile⟩, ⟨back, hback⟩, _⟩ := h
  obtain rfl : format = .tableSwitch := (Option.some.inj tile.known).symm
  obtain ⟨count, hcount, hlength⟩ := tableSwitch_length (tile.whole back)
  obtain ⟨low, high, hlow, hhigh, hsize, _⟩ := tableCount_ok hcount
  rw [← hback, readSigned_drop] at hlow hhigh
  have hoperand := tile.operand
  obtain ⟨entries, hentries, hoperand⟩ := exists_ok_of_bind hoperand
  rw [tableCount_append (by omega)] at hcount
  rw [tableEntries_of_tableCount hcount] at hentries
  cases hentries
  obtain ⟨default, targets, hswitch, rfl⟩ := switchOperand_ok hoperand
  refine ⟨low, high, default, targets, hlow, hhigh, hswitch, hsize, ?_⟩
  rw [hlengthAt, hlength]

theorem pairsHold (h : StandsIn pool code Opcode.lookupswitch tail inst) :
    PairsHold code inst := by
  have hlengthAt := h.lengthAt
  obtain ⟨⟨format, tile⟩, ⟨back, hback⟩, _⟩ := h
  obtain rfl : format = .lookupSwitch := (Option.some.inj tile.known).symm
  obtain ⟨count, hcount, hlength⟩ := lookupSwitch_length (tile.whole back)
  have hread := pairCount_ok hcount
  rw [← hback, readSigned_drop] at hread
  have hoperand := tile.operand
  obtain ⟨entries, hentries, hoperand⟩ := exists_ok_of_bind hoperand
  rw [pairCount_append (by omega)] at hcount
  rw [pairEntries_of_pairCount hcount] at hentries
  cases hentries
  obtain ⟨default, targets, hswitch, rfl⟩ := switchOperand_ok hoperand
  refine ⟨default, targets, hread, hswitch, ?_⟩
  rw [hlengthAt, hlength]

end StandsIn

/-! ## Accepted code, and refused code -/

/-- The bytes of one instruction end before the other one starts. -/
def EndsBefore (code : List UInt8) (start later : Nat) : Prop :=
  ∃ stop, Spans code start stop ∧ stop ≤ later

theorem Spans.lt {start stop : Nat} (h : Spans code start stop) : start < stop := by
  obtain ⟨length, _, hpos, rfl⟩ := h
  omega

theorem Spans.unique {start stop other : Nat} (h : Spans code start stop)
    (hother : Spans code start other) : stop = other := by
  obtain ⟨length, hlength, _, rfl⟩ := h
  obtain ⟨size, hsize, _, rfl⟩ := hother
  rw [hlength] at hsize
  cases hsize
  rfl

theorem EndsBefore.lt {start later : Nat} (h : EndsBefore code start later) : start < later := by
  obtain ⟨stop, hspans, hle⟩ := h
  exact Nat.lt_of_lt_of_le hspans.lt hle

instance : Trans (EndsBefore code) (EndsBefore code) (EndsBefore code) where
  trans := by
    rintro start middle later ⟨stop, hspans, hle⟩ hlater
    exact ⟨stop, hspans, Nat.le_trans hle (Nat.le_of_lt hlater.lt)⟩

theorem Tiled.apart (h : Tiled pool 0 code insts) :
    insts.Pairwise fun first second => EndsBefore code first.offset second.offset := by
  have hchain : (insts.map (·.offset) ++ [0 + code.length]).IsChain (Spans ([] ++ code)) :=
    h.chain rfl
  rw [List.nil_append] at hchain
  have hends : (insts.map (·.offset) ++ [0 + code.length]).IsChain (EndsBefore code) :=
    hchain.imp fun start stop hspans => ⟨stop, hspans, Nat.le_refl stop⟩
  exact List.pairwise_map.1 (List.pairwise_append.1 hends.pairwise).1

/-- One of two instructions ends before the other one starts. -/
def Apart (code : List UInt8) (first second : Instruction) : Prop :=
  EndsBefore code first.offset second.offset ∨ EndsBefore code second.offset first.offset

instance : Std.Symm (Apart code) where
  symm _ _ := Or.symm

theorem EndsBefore.not_covers {place : Nat} {first second : Instruction}
    (hends : EndsBefore code first.offset second.offset) (hfirst : Covers code place first) :
    ¬ Covers code place second := by
  rintro ⟨_, _, hfrom, _⟩
  obtain ⟨stop, hspans, hle⟩ := hends
  obtain ⟨stopFirst, hspansFirst, _, hlt⟩ := hfirst
  obtain rfl := hspans.unique hspansFirst
  omega

/-- No byte is one of two instructions. -/
theorem Tiled.covers_unique {place : Nat} {other : Instruction} (h : Tiled pool 0 code insts)
    (hinst : inst ∈ insts) (hother : other ∈ insts) (hcovers : Covers code place inst)
    (hcoversOther : Covers code place other) : inst = other := by
  by_contra hne
  have hapart : insts.Pairwise (Apart code) := h.apart.imp Or.inl
  rcases hapart.forall hinst hother hne with hends | hends
  · exact hends.not_covers hcovers hcoversOther
  · exact hends.not_covers hcoversOther hcovers

/-- How the instructions lie in the code that they were decoded from. -/
structure Tiles (pool : ConstantPool) (code : List UInt8) (insts : List Instruction) : Prop where
  first : (boundaries code insts).head? = some 0
  next : (boundaries code insts).IsChain (Spans code)
  ascending : insts.Pairwise (·.offset < ·.offset)
  covered : ∀ place < code.length, ∃! inst, inst ∈ insts ∧ Covers code place inst
  /-- The opcode is the byte at the offset, or the one behind a marker. -/
  opcode : ∀ inst ∈ insts, ∃ op, code[inst.offset]? = some op ∧
    if op = Opcode.wide then code[inst.offset + 1]? = some inst.opcode else inst.opcode = op
  /-- No byte that is not of the instruction is read for it. -/
  contained : ∀ inst ∈ insts, ∃ length, lengthAt code inst.offset = .ok length ∧
    inst.offset + length ≤ code.length ∧ ∀ rest, decodeInstruction pool inst.offset
      ((code.drop inst.offset).take length ++ rest) = .ok (inst, length)
  table : ∀ inst ∈ insts, code[inst.offset]? = some Opcode.tableswitch → TableHolds code inst
  lookup : ∀ inst ∈ insts, code[inst.offset]? = some Opcode.lookupswitch → PairsHold code inst
  /-- Nothing else has the operand of a switch. -/
  switch : ∀ inst ∈ insts, inst.operand.kind = .switch →
    code[inst.offset]? = some Opcode.tableswitch ∨ code[inst.offset]? = some Opcode.lookupswitch

theorem Tiled.tiles (h : Tiled pool 0 code insts) : Tiles pool code insts where
  first := by
    have hhead := h.head_boundaries
    rwa [Nat.zero_add] at hhead
  next := by
    have hchain : (insts.map (·.offset) ++ [0 + code.length]).IsChain (Spans ([] ++ code)) :=
      h.chain rfl
    rwa [Nat.zero_add] at hchain
  ascending := h.apart.imp EndsBefore.lt
  covered := by
    intro place hplace
    obtain ⟨inst, hinst, hcovers⟩ : ∃ inst ∈ insts, Covers ([] ++ code) place inst :=
      h.covered rfl (Nat.zero_le place) (by omega)
    refine ⟨inst, ⟨hinst, hcovers⟩, ?_⟩
    rintro other ⟨hother, hcoversOther⟩
    exact h.covers_unique hother hinst hcoversOther hcovers
  opcode := by
    intro inst hinst
    obtain ⟨op, tail, hstands⟩ := h.standsIn hinst
    refine ⟨op, hstands.getElem?, ?_⟩
    have hopcode := hstands.opcode
    split
    · rename_i hwide
      rw [if_pos hwide] at hopcode
      exact hopcode.1
    · rename_i hnot
      rw [if_neg hnot] at hopcode
      exact hopcode.1
  contained := by
    intro inst hinst
    obtain ⟨op, tail, hstands⟩ := h.standsIn hinst
    exact ⟨_, hstands.lengthAt, hstands.within, hstands.decodes⟩
  table := by
    intro inst hinst hop
    obtain ⟨op, tail, hstands⟩ := h.standsIn hinst
    rw [hstands.getElem?] at hop
    cases hop
    exact hstands.tableHolds
  lookup := by
    intro inst hinst hop
    obtain ⟨op, tail, hstands⟩ := h.standsIn hinst
    rw [hstands.getElem?] at hop
    cases hop
    exact hstands.pairsHold
  switch := by
    intro inst hinst hkind
    obtain ⟨op, tail, hstands⟩ := h.standsIn hinst
    have hopcode := hstands.opcode
    rw [hkind] at hopcode
    split at hopcode
    · cases hopcode.2
    · rw [hstands.getElem?]
      have hop := Opcode.isSwitch_of_operandKind op hopcode.2.symm
      simp only [Opcode.isSwitch, Bool.or_eq_true, beq_iff_eq] at hop
      exact hop.imp (congrArg some) (congrArg some)

/-- A table switch stands at the offset whose number of targets is negative or
does not fit 32 bits. -/
def BadTable (code : List UInt8) (offset : Nat) : Prop :=
  code[offset]? = some Opcode.tableswitch ∧ ∃ low high,
    readSigned 4 (offset + (switchBase offset + 4)) code = .ok low ∧
      readSigned 4 (offset + (switchBase offset + 8)) code = .ok high ∧
      (high - low + 1 < 0 ∨ 0x80000000 ≤ high - low + 1)

/-- A lookup switch stands at the offset whose number of pairs is negative. -/
def BadPairs (code : List UInt8) (offset : Nat) : Prop :=
  code[offset]? = some Opcode.lookupswitch ∧
    ∃ count, readSigned 4 (offset + (switchBase offset + 4)) code = .ok count ∧ count < 0

theorem decodeInstruction_of_length {op : Opcode} {rest : List UInt8} {format : Format}
    {fault : CodeFault} (hformat : Opcode.format? op = some format)
    (hlength : format.length offset (op :: rest) = .error fault) :
    decodeInstruction pool offset (op :: rest) = .error fault := by
  unfold decodeInstruction
  simp only [hformat, hlength]
  rfl

theorem exists_drop_of_getElem? {op : UInt8} (h : code[offset]? = some op) :
    ∃ rest, code.drop offset = op :: rest := by
  rw [← List.head?_drop] at h
  exact List.head?_eq_some_iff.1 h

theorem BadTable.decodeInstruction (h : BadTable code offset) :
    decodeInstruction pool offset (code.drop offset) = .error .badTableRange := by
  obtain ⟨hop, low, high, hlow, hhigh, hbad⟩ := h
  obtain ⟨rest, hrest⟩ := exists_drop_of_getElem? hop
  rw [← readSigned_drop, hrest] at hlow hhigh
  rw [hrest]
  refine decodeInstruction_of_length rfl ?_
  rw [Format.length]
  unfold tableCount
  rw [hlow, hhigh]
  simp only [bind, Except.bind]
  rw [if_neg (by omega)]

theorem BadPairs.decodeInstruction (h : BadPairs code offset) :
    decodeInstruction pool offset (code.drop offset) = .error .badPairCount := by
  obtain ⟨hop, count, hread, hbad⟩ := h
  obtain ⟨rest, hrest⟩ := exists_drop_of_getElem? hop
  rw [← readSigned_drop, hrest] at hread
  rw [hrest]
  refine decodeInstruction_of_length rfl ?_
  rw [Format.length]
  unfold pairCount
  rw [hread]
  simp only [bind, Except.bind]
  rw [if_neg (by omega)]

/-- Where the accepted instructions end, the next one decides. -/
theorem decode_of_error {stop : Nat} {front : List Instruction} {fault : CodeFault}
    (hfront : decode pool (code.take stop) = .ok front) (hstop : stop < code.length)
    (h : decodeInstruction pool stop (code.drop stop) = .error fault) :
    decode pool code = .error fault := by
  have htiled := tiled_of_decodeFrom hfront
  have hlength : 0 + (code.take stop).length = stop := by
    rw [List.length_take]
    omega
  have hback : code.drop stop ≠ [] := by
    rw [Ne, List.drop_eq_nil_iff]
    omega
  have happend := htiled.decodeFrom_append (code.drop stop)
  rw [List.take_append_drop, hlength, decodeFrom_of_error hback h] at happend
  exact happend

/-- Whatever the code is, it is either accepted, and its instructions tile it,
or it is refused at an instruction up to which it is accepted.  A switch with
a bad number of targets is refused. -/
theorem decode_tiles (pool : ConstantPool) (code : List UInt8) :
    ((∃ insts, decode pool code = .ok insts ∧ Tiles pool code insts) ∨
      ∃ fault stop front, decode pool code = .error fault ∧ stop < code.length ∧
        decode pool (code.take stop) = .ok front ∧
        decodeInstruction pool stop (code.drop stop) = .error fault) ∧
    ∀ stop front, decode pool (code.take stop) = .ok front →
      (BadTable code stop → decode pool code = .error .badTableRange) ∧
      (BadPairs code stop → decode pool code = .error .badPairCount) := by
  refine ⟨?_, ?_⟩
  · obtain ⟨front, back, insts, rfl, htiled, rfl | ⟨fault, hback, hfault⟩⟩ :=
      exists_tiled pool 0 code
    · rw [List.append_nil]
      exact .inl ⟨insts, htiled.decodeFrom, htiled.tiles⟩
    · rw [Nat.zero_add] at hfault
      have hstop : front.length < (front ++ back).length := by
        have hpos := List.length_pos_iff.2 hback
        rw [List.length_append]
        omega
      have hfront : decode pool ((front ++ back).take front.length) = .ok insts := by
        rw [List.take_left]
        exact htiled.decodeFrom
      have hdrop : (front ++ back).drop front.length = back := List.drop_left
      rw [← hdrop] at hfault
      exact .inr ⟨fault, front.length, insts, decode_of_error hfront hstop hfault, hstop, hfront,
        hfault⟩
  · intro stop front hfront
    refine ⟨?_, ?_⟩
    · intro hbad
      have hstop := (List.getElem?_eq_some_iff.1 hbad.1).1
      exact decode_of_error hfront hstop hbad.decodeInstruction
    · intro hbad
      have hstop := (List.getElem?_eq_some_iff.1 hbad.1).1
      exact decode_of_error hfront hstop hbad.decodeInstruction

/-- A table switch behind an instruction without effect, from 0 to -2. -/
def negativeRange : List UInt8 :=
  [0x00, 0xaa, 0, 0, 0, 0, 0, 0, 0, 0, 0, 0, 0xff, 0xff, 0xff, 0xfe]

theorem negativeRange_refused :
    decode #[] (negativeRange.take 1) = .ok [⟨0, 0x00, .none⟩] ∧ BadTable negativeRange 1 ∧
      decode #[] negativeRange = .error .badTableRange := by
  have hfront : decode #[] (negativeRange.take 1) = .ok [⟨0, 0x00, .none⟩] :=
    decodeFrom_cons rfl (decodeFrom_nil _ _)
  have hbad : BadTable negativeRange 1 :=
    ⟨rfl, 0, -2, by decide +kernel, by decide +kernel, .inl (by decide)⟩
  exact ⟨hfront, hbad, ((decode_tiles #[] negativeRange).2 1 _ hfront).1 hbad⟩

end BytecodeLint.Bytecode
