import BytecodeLint.Bytecode.Decode
import BytecodeLint.Proofs.Assembly
import BytecodeLint.Proofs.Results
import Mathlib.Data.Bool.AllAny
import Mathlib.Tactic.Positivity

/-!
# Decoding undoes assembling

Code that is assembled from raw instructions is decoded to the instructions
that they denote, at the offsets where they were laid.

The decoder takes the length of an instruction from one table of formats and
its operands from another function.  The two have to agree for every
opcode, or everything behind the instruction is lost.  So each instruction
is proved with arbitrary bytes behind it, and the lengths of both sides
meet in `decodeInstruction_of_format`.

There are six groups.

* Numbers that are spelled are read back.
* References that an entry of the pool answers are resolved.
* The tables of the decoder give every opcode the layout it is written in.
* `RawInstruction.DecodesAt` says it of one instruction, and four lemmas give
  the layouts that several instructions share: an opcode alone, a number with
  a sign, an index, and a wide form.
* The instructions, by what they do.  `decodeInstruction_encode` puts them
  together.
* `decode_assemble` is the result.
-/

namespace BytecodeLint.Bytecode

/-! ## Numbers -/

@[simp] theorem length_spell (width value : Nat) : (spell width value).length = width := by
  induction width generalizing value with
  | zero => rfl
  | succ width ih => rw [spell, List.length_append, ih, List.length_singleton]

@[simp] theorem length_spellSigned (width : Nat) (value : Int) :
    (spellSigned width value).length = width :=
  length_spell _ _

theorem bigEndian_append_singleton (bytes : List UInt8) (byte : UInt8) :
    bigEndian (bytes ++ [byte]) = bigEndian bytes * 256 + byte.toNat := by
  unfold bigEndian
  rw [List.foldl_append]
  rfl

theorem bigEndian_spell {width value : Nat} (h : value < 256 ^ width) :
    bigEndian (spell width value) = value := by
  induction width generalizing value with
  | zero =>
    rw [Nat.pow_zero, Nat.lt_one_iff] at h
    rw [h]
    rfl
  | succ width ih =>
    have hdiv : value / 256 < 256 ^ width := by
      rw [Nat.div_lt_iff_lt_mul (by decide), ← Nat.pow_succ]
      exact h
    rw [spell, bigEndian_append_singleton, ih hdiv, UInt8.toNat_ofNat']
    omega

/-- A number of `width` bytes is read where it was spelled. -/
theorem readUnsigned_of_spelled {width skip value : Nat} {code : List UInt8}
    (front rest : List UInt8) (hcode : code = front ++ (spell width value ++ rest))
    (hskip : front.length = skip) (hvalue : value < 256 ^ width) :
    readUnsigned width skip code = .ok value := by
  have hfield : (code.drop skip).take width = spell width value := by
    rw [hcode, ← hskip, List.drop_left, List.take_left' (length_spell width value)]
  unfold readUnsigned
  simp only [hfield, length_spell, if_true, bigEndian_spell hvalue]

private theorem one_shiftLeft (width : Nat) : 1 <<< (8 * width) = 256 ^ width := by
  rw [Nat.shiftLeft_eq, Nat.one_mul, Nat.pow_mul]

theorem readSigned_of_spelled {width skip : Nat} {value : Int} {code : List UInt8}
    (front rest : List UInt8) (hcode : code = front ++ (spellSigned width value ++ rest))
    (hskip : front.length = skip) (hvalue : Fits width value) :
    readSigned width skip code = .ok value := by
  have hpos : (0 : Int) < 256 ^ width := by positivity
  have hnonneg : 0 ≤ value % 256 ^ width := Int.emod_nonneg value (Int.ne_of_gt hpos)
  have hlt : (value % 256 ^ width).toNat < 256 ^ width := by
    rw [Int.toNat_lt hnonneg, Int.natCast_pow]
    exact Int.emod_lt_of_pos value hpos
  have hmod : ((value % 256 ^ width).toNat : Int) = value % ((256 ^ width : Nat) : Int) := by
    rw [Int.toNat_of_nonneg hnonneg, Int.natCast_pow]
    rfl
  have hback : Int.bmod value (256 ^ width) = value := by
    obtain ⟨hlow, hhigh⟩ := hvalue
    refine Int.bmod_eq_of_le_mul_two ?_ ?_
    · rw [Int.natCast_pow]
      exact Int.mul_comm 2 value ▸ hlow
    · rw [Int.natCast_pow]
      exact Int.mul_comm 2 value ▸ hhigh
  unfold readSigned
  rw [readUnsigned_of_spelled front rest hcode hskip hlt, one_shiftLeft]
  show Except.ok (Int.bmod _ _) = _
  rw [hmod, Int.emod_bmod, hback]

theorem fits_toInt_int8 (value : Int8) : Fits 1 value.toInt := by
  have hlow := value.le_toInt
  have hhigh := value.toInt_lt
  constructor <;> omega

theorem fits_toInt_int16 (value : Int16) : Fits 2 value.toInt := by
  have hlow := value.le_toInt
  have hhigh := value.toInt_lt
  constructor <;> omega

theorem fits_toInt_int32 (value : Int32) : Fits 4 value.toInt := by
  have hlow := value.le_toInt
  have hhigh := value.toInt_lt
  constructor <;> omega

@[simp] theorem spell_one (byte : UInt8) : spell 1 byte.toNat = [byte] := by
  simp [spell]

/-- The byte behind the opcode, read as a number. -/
theorem readUnsigned_byte (op byte : UInt8) (rest : List UInt8) :
    readUnsigned 1 1 (op :: byte :: rest) = .ok byte.toNat := by
  refine readUnsigned_of_spelled [op] rest ?_ rfl byte.toNat_lt
  rw [spell_one]
  rfl

/-- The index behind the opcode. -/
theorem readUnsigned_index (op : UInt8) (index : UInt16) (rest : List UInt8) :
    readUnsigned 2 1 (op :: (spell 2 index.toNat ++ rest)) = .ok index.toNat :=
  readUnsigned_of_spelled [op] rest rfl rfl index.toNat_lt

/-- The signed number behind the opcode. -/
theorem readSigned_behind {width : Nat} {value : Int} (op : UInt8) (h : Fits width value) :
    readSigned width 1 (op :: spellSigned width value) = .ok value := by
  refine readSigned_of_spelled [op] [] ?_ rfl h
  rw [List.append_nil]
  rfl

end BytecodeLint.Bytecode

/-! ## References -/

namespace BytecodeLint.ConstantPool

variable {pool : ConstantPool} {index : Nat}

theorem entry_of_getElem? {found : PoolEntry} (needed : NeededEntry)
    (h : pool[index]? = some found) : pool.entry needed index = .ok found := by
  unfold entry
  rw [h]

theorem Spells.text {text : String} (h : pool.Spells index text) :
    pool.text index = .ok text := by
  unfold ConstantPool.text
  rw [entry_of_getElem? _ h]
  rfl

theorem NamesClass.className {name : String} (h : pool.NamesClass index name) :
    pool.className index = .ok name := by
  obtain ⟨text, hentry, hspells⟩ := h
  unfold ConstantPool.className
  rw [entry_of_getElem? _ hentry]
  exact hspells.text

theorem NamesAndTypes.nameAndType {name descriptor : String}
    (h : pool.NamesAndTypes index name descriptor) :
    pool.nameAndType index = .ok (name, descriptor) := by
  obtain ⟨first, second, hentry, hname, hdescriptor⟩ := h
  unfold ConstantPool.nameAndType
  rw [entry_of_getElem? _ hentry]
  simp only [bind, Except.bind, hname.text, hdescriptor.text, Except.mapError]

theorem NamesMember.member {member : Member} (h : pool.NamesMember index member) :
    pool.member index = .ok member := by
  obtain ⟨owner, nameAndType, hentry, howner, hname⟩ := h
  simp only [List.mem_cons, List.not_mem_nil, or_false] at hentry
  unfold ConstantPool.member
  rcases hentry with hentry | hentry | hentry
  all_goals
    rw [entry_of_getElem? _ hentry]
    simp only [bind, Except.bind, howner.className, hname.nameAndType, Except.mapError]

theorem NamesDynamicCall.dynamicCall {name descriptor : String}
    (h : pool.NamesDynamicCall index name descriptor) :
    pool.dynamicCall index = .ok (name, descriptor) := by
  obtain ⟨bootstrap, nameAndType, hentry, hname⟩ := h
  unfold ConstantPool.dynamicCall
  rw [entry_of_getElem? _ hentry]
  exact hname.nameAndType

theorem Holds.constant {literal : Constant} (h : pool.Holds index literal) :
    pool.constant index = .ok literal := by
  unfold ConstantPool.constant
  cases h with
  | string entry spelled =>
    rw [entry_of_getElem? _ entry]
    simp only [bind, Except.bind, spelled.text]
    rfl
  | type entry spelled =>
    rw [entry_of_getElem? _ entry]
    simp only [bind, Except.bind, spelled.text]
    rfl
  | int entry | float entry | long entry | double entry | methodHandle entry | methodType entry
  | dynamic entry =>
    rw [entry_of_getElem? _ entry]
    rfl

end BytecodeLint.ConstantPool

namespace BytecodeLint.Bytecode

/-- The index behind the opcode is looked up. -/
theorem resolve_of_read {α : Type} {lookup : Nat → Except PoolFault α} {value : α}
    {code : List UInt8} {index : Nat} (use : PoolUse) (hread : readUnsigned 2 1 code = .ok index)
    (h : lookup index = .ok value) : resolve code use lookup = .ok value := by
  unfold resolve
  rw [hread]
  simp only [bind, Except.bind, h, Except.mapError]

/-! ## The tables of the decoder -/

theorem format_of_plain : ∀ op ∈ plainOpcodes,
    Opcode.format? op = some .bare ∧ heldOperand op = .none :=
  List.all_iff_forall_prop.1 rfl

theorem format_of_literal : ∀ held ∈ heldLiterals,
    Opcode.format? held.1 = some .bare ∧ heldOperand held.1 = .constant held.2 :=
  List.all_iff_forall_prop.1 rfl

theorem format_of_shortLoad : ∀ (family : Fin 5) (index : Fin 4),
    Opcode.format? (UInt8.ofNat (0x1a + 4 * family + index)) = some .bare ∧
      heldOperand (UInt8.ofNat (0x1a + 4 * family + index)) = .localVar index := by
  decide

theorem format_of_shortStore : ∀ (family : Fin 5) (index : Fin 4),
    Opcode.format? (UInt8.ofNat (0x3b + 4 * family + index)) = some .bare ∧
      heldOperand (UInt8.ofNat (0x3b + 4 * family + index)) = .localVar index := by
  decide

theorem format_of_local : ∀ op ∈ localOpcodes,
    Opcode.format? op = some .localVar ∧ op ≠ Opcode.iinc :=
  List.all_iff_forall_prop.1 rfl

theorem format_of_jump : ∀ op ∈ jumpOpcodes, Opcode.format? op = some .jump :=
  List.all_iff_forall_prop.1 rfl

theorem format_of_longJump : ∀ op ∈ [Opcode.gotoW, Opcode.jsrW],
    Opcode.format? op = some .longJump :=
  List.all_iff_forall_prop.1 rfl

theorem format_of_constant : ∀ op ∈ [Opcode.ldcW, Opcode.ldc2W],
    Opcode.format? op = some .constant :=
  List.all_iff_forall_prop.1 rfl

theorem format_of_field :
    ∀ op ∈ [Opcode.getstatic, Opcode.putstatic, Opcode.getfield, Opcode.putfield],
      Opcode.format? op = some .field :=
  List.all_iff_forall_prop.1 rfl

theorem format_of_type :
    ∀ op ∈ [Opcode.new, Opcode.anewarray, Opcode.checkcast, Opcode.instanceof],
      Opcode.format? op = some .type :=
  List.all_iff_forall_prop.1 rfl

theorem format_of_callOpcode (kind : CallKind) :
    Opcode.format? (callOpcode kind) =
      some (.call kind (if kind = .interface then 2 else 0)) := by
  cases kind <;> rfl

/-! ## One instruction -/

/-- An instruction is decoded if its format takes as many bytes as it has,
whatever stands behind it, and gives its operand. -/
theorem decodeInstruction_of_format {pool : ConstantPool} {offset : Nat} {op : Opcode}
    {tail rest : List UInt8} {format : Format} {operand : Operand}
    (hformat : Opcode.format? op = some format)
    (hlength : format.length offset (op :: tail ++ rest) = .ok (op :: tail).length)
    (hoperand : decodeOperand pool offset op (op :: tail) format = .ok operand) :
    decodeInstruction pool offset (op :: tail ++ rest) =
      .ok (⟨offset, effectiveOpcode op (op :: tail) format, operand⟩, (op :: tail).length) := by
  have htake : (op :: tail ++ rest).take (op :: tail).length = op :: tail :=
    List.take_left' rfl
  have henough : ¬ ((op :: tail).length = 0 ∨ (op :: tail).length < (op :: tail).length) := by
    simp
  rw [List.cons_append] at hlength htake ⊢
  unfold decodeInstruction
  simp only [hformat, hlength, bind, Except.bind, htake]
  rw [if_neg henough]
  simp only [pure, Except.pure, hoperand]

/-- An instruction that is an opcode alone, which holds its operand itself. -/
theorem decodeInstruction_of_bare {pool : ConstantPool} {offset : Nat} {op : Opcode}
    {operand : Operand} (rest : List UInt8)
    (h : Opcode.format? op = some .bare ∧ heldOperand op = operand) :
    decodeInstruction pool offset ([op] ++ rest) = .ok (⟨offset, op, operand⟩, 1) :=
  decodeInstruction_of_format h.1 rfl (congrArg Except.ok h.2)

/-- An instruction that is an opcode and a number with a sign. -/
theorem decodeInstruction_of_number {pool : ConstantPool} {offset width : Nat} {op : Opcode}
    {number : Int} {format : Format} {operand : Operand} (rest : List UInt8)
    (hformat : Opcode.format? op = some format) (hfits : Fits width number)
    (hlength : ∀ code, format.length offset code = .ok (width + 1))
    (hoperand : ∀ code, readSigned width 1 code = .ok number →
      decodeOperand pool offset op code format = .ok operand) :
    decodeInstruction pool offset (op :: spellSigned width number ++ rest) =
      .ok (⟨offset, effectiveOpcode op (op :: spellSigned width number) format, operand⟩,
        (op :: spellSigned width number).length) := by
  refine decodeInstruction_of_format hformat ?_ (hoperand _ (readSigned_behind op hfits))
  rw [hlength, List.length_cons, length_spellSigned]

/-- An instruction that is an opcode and the index of an entry, with `extra`
bytes behind it. -/
theorem decodeInstruction_of_index {pool : ConstantPool} {offset : Nat} {op : Opcode}
    {index : UInt16} {tail : List UInt8} {format : Format} {operand : Operand}
    (extra rest : List UInt8) (htail : spell 2 index.toNat ++ extra = tail)
    (hformat : Opcode.format? op = some format)
    (hlength : ∀ code, format.length offset code = .ok (extra.length + 3))
    (hoperand : readUnsigned 2 1 (op :: tail) = .ok index.toNat →
      decodeOperand pool offset op (op :: tail) format = .ok operand) :
    decodeInstruction pool offset (op :: tail ++ rest) =
      .ok (⟨offset, effectiveOpcode op (op :: tail) format, operand⟩, (op :: tail).length) := by
  subst htail
  refine decodeInstruction_of_format hformat ?_ (hoperand (readUnsigned_index op index extra))
  rw [hlength, List.length_cons, List.length_append, length_spell]
  exact congrArg Except.ok (by omega)

/-- A wide form: the opcode behind the marker, and a local variable by an
index of two bytes. -/
theorem decodeInstruction_of_wide {pool : ConstantPool} {offset : Nat} {op : Opcode}
    {index : UInt16} {tail : List UInt8} (extra rest : List UInt8)
    (htail : spell 2 index.toNat ++ extra = tail)
    (hlength : (if op = Opcode.iinc then 6 else 4) = extra.length + 4) :
    decodeInstruction pool offset (Opcode.wide :: op :: tail ++ rest) =
      .ok (⟨offset, op, .localVar index.toNat⟩, (Opcode.wide :: op :: tail).length) := by
  subst htail
  have hformat : Opcode.format? Opcode.wide = some .wide := rfl
  have hread : readUnsigned 2 2 (Opcode.wide :: op :: (spell 2 index.toNat ++ extra)) =
      .ok index.toNat :=
    readUnsigned_of_spelled [Opcode.wide, op] extra rfl rfl index.toNat_lt
  refine decodeInstruction_of_format hformat ?_ ?_
  · show Except.ok (if op = Opcode.iinc then 6 else 4) = _
    rw [hlength, List.length_cons, List.length_cons, List.length_append, length_spell]
    exact congrArg Except.ok (by omega)
  · rw [decodeOperand, hread]
    rfl

namespace RawInstruction

/-- The instruction is decoded to itself with the given operand, and to its
length, whatever stands behind it. -/
def DecodesAt (pool : ConstantPool) (offset : Nat) (operand : Operand) (raw : RawInstruction) :
    Prop :=
  ∀ rest, decodeInstruction pool offset (raw.encode offset ++ rest) =
    .ok (⟨offset, raw.opcode, operand⟩, (raw.encode offset).length)

end RawInstruction

/-! ## Jumps -/

theorem jumpTarget_distance (offset : Nat) (target : UInt32) :
    jumpTarget offset (RawInstruction.distance offset target) = .ok target.toNat := by
  have htarget : (offset : Int) + RawInstruction.distance offset target = target.toNat := by
    unfold RawInstruction.distance
    omega
  have hlt := target.toNat_lt
  unfold jumpTarget
  simp only [htarget]
  rw [if_pos (by omega)]
  rfl

namespace RawInstruction

variable {pool : ConstantPool} {offset : Nat} {op : Opcode} {target : UInt32}

theorem decodesAt_jump (h : (jump op target).WellFormedAt offset) :
    (jump op target).DecodesAt pool offset (.branch target.toNat) := by
  intro rest
  refine decodeInstruction_of_number rest (format_of_jump op h.1) h.2 (fun _ => rfl) ?_
  intro code hread
  rw [decodeOperand, hread]
  simp only [bind, Except.bind, jumpTarget_distance]
  rfl

theorem decodesAt_longJump (h : (longJump op target).WellFormedAt offset) :
    (longJump op target).DecodesAt pool offset (.branch target.toNat) := by
  intro rest
  refine decodeInstruction_of_number rest (format_of_longJump op h.1) h.2 (fun _ => rfl) ?_
  intro code hread
  rw [decodeOperand, hread]
  simp only [bind, Except.bind, jumpTarget_distance]
  rfl

end RawInstruction

/-! ## Switches -/

theorem mapM_jumpTarget (offset : Nat) (targets : List UInt32) :
    (targets.map (RawInstruction.distance offset)).mapM (jumpTarget offset) =
      .ok (targets.map (·.toNat)) := by
  induction targets with
  | nil => rfl
  | cons target rest ih =>
    rw [List.map_cons, List.mapM_cons, jumpTarget_distance, ih]
    rfl

/-- The distances of switch targets that are written one after another, each
behind some more bytes. -/
def spellTargets (offset : Nat) (entries : List (List UInt8 × UInt32)) : List UInt8 :=
  entries.flatMap fun entry => entry.1 ++ spellSigned 4 (RawInstruction.distance offset entry.2)

theorem length_spellTargets {gap : Nat} (offset : Nat) {entries : List (List UInt8 × UInt32)}
    (hgap : ∀ entry ∈ entries, entry.1.length = gap) :
    (spellTargets offset entries).length = entries.length * (gap + 4) := by
  unfold spellTargets
  induction entries with
  | nil => simp
  | cons entry later ih =>
    have hlength := hgap entry (List.mem_cons_self ..)
    have hlater := ih fun other hmem => hgap other (List.mem_cons_of_mem _ hmem)
    rw [List.flatMap_cons, List.length_append, hlater, List.length_append, length_spellSigned,
      hlength, List.length_cons, Nat.succ_mul]
    omega

theorem readDistances_of_spelled {gap offset : Nat} (rest : List UInt8)
    {entries : List (List UInt8 × UInt32)} (hgap : ∀ entry ∈ entries, entry.1.length = gap)
    (hfits : ∀ entry ∈ entries, Fits 4 (RawInstruction.distance offset entry.2)) :
    readDistances gap entries.length (spellTargets offset entries ++ rest) =
      .ok ((entries.map (·.2)).map (RawInstruction.distance offset)) := by
  induction entries with
  | nil => rfl
  | cons entry later ih =>
    have hlength := hgap entry (List.mem_cons_self ..)
    have hcode : spellTargets offset (entry :: later) ++ rest =
        entry.1 ++ (spellSigned 4 (RawInstruction.distance offset entry.2) ++
          (spellTargets offset later ++ rest)) := by
      simp [spellTargets]
    have hdrop : (spellTargets offset (entry :: later) ++ rest).drop (gap + 4) =
        spellTargets offset later ++ rest := by
      rw [hcode, ← List.append_assoc, List.drop_left' (by simp [hlength])]
    have hfirst : readSigned 4 gap (spellTargets offset (entry :: later) ++ rest) =
        .ok (RawInstruction.distance offset entry.2) :=
      readSigned_of_spelled entry.1 _ hcode hlength (hfits entry (List.mem_cons_self ..))
    have hlater := ih (fun other hmem => hgap other (List.mem_cons_of_mem _ hmem))
      (fun other hmem => hfits other (List.mem_cons_of_mem _ hmem))
    rw [List.length_cons, readDistances, hfirst]
    simp only [bind, Except.bind, hdrop, hlater]
    rfl

/-- The number of targets of a table switch is the size of its range, from
the two bounds that stand in the code. -/
theorem tableCount_ok {skip count : Nat} {code : List UInt8}
    (h : tableCount skip code = .ok count) :
    ∃ low high : Int, readSigned 4 (skip + 4) code = .ok low ∧
      readSigned 4 (skip + 8) code = .ok high ∧ (count : Int) = high - low + 1 ∧
      count < 0x80000000 := by
  obtain ⟨low, hlow, h⟩ := exists_ok_of_bind h
  obtain ⟨high, hhigh, h⟩ := exists_ok_of_bind h
  refine ⟨low, high, hlow, hhigh, ?_⟩
  simp only at h
  split at h
  · cases h
    omega
  · cases h

theorem pairCount_ok {skip count : Nat} {code : List UInt8}
    (h : pairCount skip code = .ok count) : readSigned 4 (skip + 4) code = .ok (count : Int) := by
  obtain ⟨pairs, hread, h⟩ := exists_ok_of_bind h
  split at h
  · cases h
    rw [hread, Int.toNat_of_nonneg ‹_›]
  · cases h

/-- An operand reads as many targets as the length of the instruction
allows for. -/
theorem tableEntries_of_tableCount {skip count : Nat} {code : List UInt8}
    (h : tableCount skip code = .ok count) : tableEntries skip code = .ok count := by
  obtain ⟨low, high, hlow, hhigh, hsize, hlt⟩ := tableCount_ok h
  unfold tableEntries
  rw [hlow, hhigh]
  simp only [bind, Except.bind]
  rw [if_pos (by omega), ← hsize, Int.toNat_natCast]

theorem pairEntries_of_pairCount {skip count : Nat} {code : List UInt8}
    (h : pairCount skip code = .ok count) : pairEntries skip code = .ok count := by
  unfold pairEntries
  rw [pairCount_ok h]
  rfl

namespace RawInstruction

variable {pool : ConstantPool} {offset : Nat} {padding : List UInt8} {default : UInt32}

theorem Aligned.switchBase (h : Aligned offset padding) (op : UInt8) :
    (op :: padding).length = switchBase offset := by
  obtain ⟨hshort, haligned⟩ := h
  unfold Bytecode.switchBase Bytecode.padding
  rw [List.length_cons]
  omega

/-- The operand of a switch.  The distance of its default stands right
behind the padding, and those of its targets stand behind `head`. -/
theorem switchOperand_of_spelled {op : UInt8} {gap skip : Nat} {head middle : List UInt8}
    {entries : List (List UInt8 × UInt32)} (haligned : Aligned offset padding)
    (hhead : head = op :: padding ++ (spellSigned 4 (distance offset default) ++ middle))
    (hskip : head.length = skip) (hdefault : Fits 4 (distance offset default))
    (hgap : ∀ entry ∈ entries, entry.1.length = gap)
    (hfits : ∀ entry ∈ entries, Fits 4 (distance offset entry.2)) :
    switchOperand offset skip gap entries.length (head ++ spellTargets offset entries) =
      .ok (.switch default.toNat (entries.map (·.2.toNat))) := by
  have hread : readSigned 4 (Bytecode.switchBase offset) (head ++ spellTargets offset entries) =
      .ok (distance offset default) := by
    refine readSigned_of_spelled (op :: padding) (middle ++ spellTargets offset entries) ?_
      (haligned.switchBase op) hdefault
    rw [hhead, List.append_assoc, List.append_assoc]
  have hdistances := readDistances_of_spelled [] hgap hfits
  rw [List.append_nil] at hdistances
  unfold switchOperand
  rw [hread, List.drop_left' hskip]
  simp only [bind, Except.bind, jumpTarget_distance, hdistances, mapM_jumpTarget]
  rw [List.map_map]
  rfl

section Table

variable {low : Int32} {targets : List UInt32}

/-- The bytes of a table switch before its targets. -/
def tableHead (offset : Nat) (padding : List UInt8) (default : UInt32) (low : Int32)
    (targets : List UInt32) : List UInt8 :=
  Opcode.tableswitch :: padding ++ (spellSigned 4 (distance offset default) ++
    (spellSigned 4 low.toInt ++ spellSigned 4 (highKey low targets)))

theorem length_tableHead (h : Aligned offset padding) :
    (tableHead offset padding default low targets).length = switchBase offset + 12 := by
  have hbase := h.switchBase Opcode.tableswitch
  unfold tableHead
  simp only [List.length_append, length_spellSigned]
  omega

theorem tableCount_of_spelled (rest : List UInt8) (haligned : Aligned offset padding)
    (hhigh : Fits 4 (highKey low targets)) (hcount : Fits 4 targets.length) :
    tableCount (switchBase offset) (tableHead offset padding default low targets ++ rest) =
      .ok targets.length := by
  have hbase := haligned.switchBase Opcode.tableswitch
  have hlow : readSigned 4 (switchBase offset + 4)
      (tableHead offset padding default low targets ++ rest) = .ok low.toInt := by
    refine readSigned_of_spelled
      (Opcode.tableswitch :: padding ++ spellSigned 4 (distance offset default))
      (spellSigned 4 (highKey low targets) ++ rest) ?_ ?_ (fits_toInt_int32 low)
    · simp [tableHead]
    · rw [List.length_append, hbase, length_spellSigned]
  have hhighRead : readSigned 4 (switchBase offset + 8)
      (tableHead offset padding default low targets ++ rest) = .ok (highKey low targets) := by
    refine readSigned_of_spelled (Opcode.tableswitch :: padding ++
      spellSigned 4 (distance offset default) ++ spellSigned 4 low.toInt) rest ?_ ?_ hhigh
    · simp [tableHead]
    · rw [List.length_append, List.length_append, hbase, length_spellSigned, length_spellSigned]
  have hwidth : highKey low targets - low.toInt + 1 = targets.length := by
    unfold highKey
    omega
  unfold tableCount
  rw [hlow, hhighRead]
  simp only [bind, Except.bind, hwidth]
  obtain ⟨_, hlt⟩ := hcount
  rw [if_pos (by omega)]
  rfl

theorem decodesAt_tableSwitch (h : (tableSwitch padding default low targets).WellFormedAt offset) :
    (tableSwitch padding default low targets).DecodesAt pool offset
      (.switch default.toNat (targets.map (·.toNat))) := by
  intro rest
  obtain ⟨haligned, hdefault, hhigh, hcount, htargets⟩ := h
  let entries := targets.map fun target => (([] : List UInt8), target)
  have hencode : (tableSwitch padding default low targets).encode offset =
      tableHead offset padding default low targets ++ spellTargets offset entries := by
    simp [encode, tableHead, spellTargets, entries, List.flatMap_map]
  have hgap : ∀ entry ∈ entries, entry.1.length = 0 := by simp [entries]
  have hfits : ∀ entry ∈ entries, Fits 4 (distance offset entry.2) := by
    simpa [entries] using htargets
  have hentries : entries.length = targets.length := List.length_map _
  have hlength : ((tableSwitch padding default low targets).encode offset).length =
      switchBase offset + 12 + targets.length * 4 := by
    rw [hencode, List.length_append, length_tableHead haligned, length_spellTargets offset hgap,
      hentries]
  have hformat : Opcode.format? Opcode.tableswitch = some .tableSwitch := rfl
  refine decodeInstruction_of_format hformat ?_ ?_
  · show Format.length offset ((tableSwitch padding default low targets).encode offset ++ rest)
      .tableSwitch = .ok ((tableSwitch padding default low targets).encode offset).length
    rw [hlength, hencode, List.append_assoc, Format.length,
      tableCount_of_spelled _ haligned hhigh hcount]
    rfl
  · show decodeOperand pool offset Opcode.tableswitch
      ((tableSwitch padding default low targets).encode offset) .tableSwitch = _
    have hskip : (tableHead offset padding default low targets).length =
        Bytecode.switchBase offset + 12 := length_tableHead haligned
    have hswitch := switchOperand_of_spelled haligned rfl hskip hdefault hgap hfits
    rw [hencode, decodeOperand,
      tableEntries_of_tableCount (tableCount_of_spelled _ haligned hhigh hcount)]
    refine Eq.trans ?_ (hswitch.trans ?_)
    · rw [hentries]
      rfl
    · simp [entries]

end Table

section Lookup

variable {pairs : List (UInt32 × UInt32)}

/-- The bytes of a lookup switch before its pairs. -/
def lookupHead (offset : Nat) (padding : List UInt8) (default : UInt32) (count : Nat) :
    List UInt8 :=
  Opcode.lookupswitch :: padding ++ (spellSigned 4 (distance offset default) ++
    spellSigned 4 count)

theorem length_lookupHead (h : Aligned offset padding) (count : Nat) :
    (lookupHead offset padding default count).length = switchBase offset + 8 := by
  have hbase := h.switchBase Opcode.lookupswitch
  unfold lookupHead
  simp only [List.length_append, length_spellSigned]
  omega

theorem pairCount_of_spelled {count : Nat} (rest : List UInt8)
    (haligned : Aligned offset padding) (hcount : Fits 4 count) :
    pairCount (switchBase offset) (lookupHead offset padding default count ++ rest) =
      .ok count := by
  have hread : readSigned 4 (switchBase offset + 4)
      (lookupHead offset padding default count ++ rest) = .ok (count : Int) := by
    refine readSigned_of_spelled
      (Opcode.lookupswitch :: padding ++ spellSigned 4 (distance offset default)) rest ?_ ?_ hcount
    · simp [lookupHead]
    · rw [List.length_append, haligned.switchBase, length_spellSigned]
  unfold pairCount
  rw [hread]
  simp only [bind, Except.bind]
  rw [if_pos (Int.natCast_nonneg count)]
  rfl

theorem decodesAt_lookupSwitch (h : (lookupSwitch padding default pairs).WellFormedAt offset) :
    (lookupSwitch padding default pairs).DecodesAt pool offset
      (.switch default.toNat (pairs.map (·.2.toNat))) := by
  intro rest
  obtain ⟨haligned, hdefault, hcount, htargets⟩ := h
  let entries := pairs.map fun pair => (spell 4 pair.1.toNat, pair.2)
  have hencode : (lookupSwitch padding default pairs).encode offset =
      lookupHead offset padding default pairs.length ++ spellTargets offset entries := by
    simp [encode, lookupHead, spellTargets, entries, List.flatMap_map]
  have hgap : ∀ entry ∈ entries, entry.1.length = 4 := by
    intro entry hentry
    obtain ⟨pair, _, rfl⟩ := List.mem_map.1 hentry
    exact length_spell 4 _
  have hfits : ∀ entry ∈ entries, Fits 4 (distance offset entry.2) := by
    intro entry hentry
    obtain ⟨pair, hpair, rfl⟩ := List.mem_map.1 hentry
    exact htargets pair hpair
  have hentries : entries.length = pairs.length := List.length_map _
  have hlength : ((lookupSwitch padding default pairs).encode offset).length =
      switchBase offset + 8 + pairs.length * 8 := by
    rw [hencode, List.length_append, length_lookupHead haligned, length_spellTargets offset hgap,
      hentries]
  have hformat : Opcode.format? Opcode.lookupswitch = some .lookupSwitch := rfl
  refine decodeInstruction_of_format hformat ?_ ?_
  · show Format.length offset ((lookupSwitch padding default pairs).encode offset ++ rest)
      .lookupSwitch = .ok ((lookupSwitch padding default pairs).encode offset).length
    rw [hlength, hencode, List.append_assoc, Format.length, pairCount_of_spelled _ haligned hcount]
    rfl
  · show decodeOperand pool offset Opcode.lookupswitch
      ((lookupSwitch padding default pairs).encode offset) .lookupSwitch = _
    have hskip : (lookupHead offset padding default pairs.length).length =
        Bytecode.switchBase offset + 8 := length_lookupHead haligned _
    have hswitch := switchOperand_of_spelled haligned rfl hskip hdefault hgap hfits
    rw [hencode, decodeOperand, pairEntries_of_pairCount (pairCount_of_spelled _ haligned hcount)]
    refine Eq.trans ?_ (hswitch.trans ?_)
    · rw [hentries]
      rfl
    · simp [entries]

end Lookup

/-! ## Pushes -/

theorem decodesAt_bytePush (value : Int8) :
    (bytePush value).DecodesAt pool offset (.constant (.int (.ofInt value.toInt))) := by
  intro rest
  have hformat : Opcode.format? Opcode.bipush = some .byteValue := rfl
  refine decodeInstruction_of_number rest hformat (fits_toInt_int8 value) (fun _ => rfl) ?_
  intro code hread
  rw [decodeOperand, hread]
  rfl

theorem decodesAt_shortPush (value : Int16) :
    (shortPush value).DecodesAt pool offset (.constant (.int (.ofInt value.toInt))) := by
  intro rest
  have hformat : Opcode.format? Opcode.sipush = some .shortValue := rfl
  refine decodeInstruction_of_number rest hformat (fits_toInt_int16 value) (fun _ => rfl) ?_
  intro code hread
  rw [decodeOperand, hread]
  rfl

theorem decodesAt_loadConstant {index : UInt8} {literal : Constant}
    (h : pool.Holds index.toNat literal) :
    (loadConstant index).DecodesAt pool offset (.constant literal) := by
  intro rest
  have hformat : Opcode.format? Opcode.ldc = some .shortConstant := rfl
  refine decodeInstruction_of_format hformat rfl ?_
  rw [decodeOperand, readUnsigned_byte]
  simp only [bind, Except.bind, h.constant, Except.mapError]
  rfl

theorem decodesAt_loadConstantWide {op : Opcode} {index : UInt16} {literal : Constant}
    (hformed : (loadConstantWide op index).WellFormedAt offset)
    (h : pool.Holds index.toNat literal) :
    (loadConstantWide op index).DecodesAt pool offset (.constant literal) := by
  intro rest
  have hformat := format_of_constant op hformed
  refine decodeInstruction_of_index [] rest (List.append_nil _) hformat (fun _ => rfl) ?_
  intro hread
  rw [decodeOperand, resolve_of_read .constant hread h.constant]
  rfl

/-! ## Local variables -/

theorem decodesAt_localVar {op : Opcode} {index : UInt8}
    (h : (localVar op index).WellFormedAt offset) :
    (localVar op index).DecodesAt pool offset (.localVar index.toNat) := by
  intro rest
  refine decodeInstruction_of_format (format_of_local op h).1 rfl ?_
  rw [decodeOperand, readUnsigned_byte]
  rfl

theorem decodesAt_increment (index amount : UInt8) :
    (increment index amount).DecodesAt pool offset (.localVar index.toNat) := by
  intro rest
  have hformat : Opcode.format? Opcode.iinc = some .increment := rfl
  refine decodeInstruction_of_format hformat rfl ?_
  rw [decodeOperand, readUnsigned_byte]
  rfl

theorem decodesAt_wideLocalVar {op : Opcode} {index : UInt16}
    (h : (wideLocalVar op index).WellFormedAt offset) :
    (wideLocalVar op index).DecodesAt pool offset (.localVar index.toNat) := by
  intro rest
  have hop : op ≠ Opcode.iinc := (format_of_local op h).2
  exact decodeInstruction_of_wide [] rest (List.append_nil _) (if_neg hop)

theorem decodesAt_wideIncrement (index amount : UInt16) :
    (wideIncrement index amount).DecodesAt pool offset (.localVar index.toNat) := by
  intro rest
  refine decodeInstruction_of_wide (spell 2 amount.toNat) rest rfl ?_
  rw [if_pos rfl, length_spell]

/-! ## Members -/

section Members

variable {index : UInt16} {member : Member}

theorem decodesAt_field {op : Opcode} (hformed : (field op index).WellFormedAt offset)
    (h : pool.NamesMember index.toNat member) :
    (field op index).DecodesAt pool offset
      (.field ⟨member.owner, member.name, member.descriptor⟩) := by
  intro rest
  have hformat := format_of_field op hformed
  refine decodeInstruction_of_index [] rest (List.append_nil _) hformat (fun _ => rfl) ?_
  intro hread
  rw [decodeOperand, resolve_of_read .field hread h.member]
  rfl

theorem decodesAt_call {kind : CallKind} (hformed : (call kind index).WellFormedAt offset)
    (h : pool.NamesMember index.toNat member) :
    (call kind index).DecodesAt pool offset
      (.call ⟨kind, member.owner, member.name, member.descriptor⟩) := by
  intro rest
  have hformat : Opcode.format? (callOpcode kind) = some (.call kind 0) := by
    rw [format_of_callOpcode, if_neg hformed]
  refine decodeInstruction_of_index [] rest (List.append_nil _) hformat (fun _ => rfl) ?_
  intro hread
  rw [decodeOperand, resolve_of_read .method hread h.member]
  rfl

theorem decodesAt_interfaceCall (first second : UInt8) (h : pool.NamesMember index.toNat member) :
    (interfaceCall index first second).DecodesAt pool offset
      (.call ⟨.interface, member.owner, member.name, member.descriptor⟩) := by
  intro rest
  have hformat : Opcode.format? Opcode.invokeinterface = some (.call .interface 2) := rfl
  refine decodeInstruction_of_index [first, second] rest rfl hformat (fun _ => rfl) ?_
  intro hread
  rw [decodeOperand, resolve_of_read .method hread h.member]
  rfl

theorem decodesAt_dynamicCall (first second : UInt8) {name descriptor : String}
    (h : pool.NamesDynamicCall index.toNat name descriptor) :
    (dynamicCall index first second).DecodesAt pool offset (.dynamicCall name descriptor) := by
  intro rest
  have hformat : Opcode.format? Opcode.invokedynamic = some .dynamicCall := rfl
  refine decodeInstruction_of_index [first, second] rest rfl hformat (fun _ => rfl) ?_
  intro hread
  rw [decodeOperand, resolve_of_read .dynamicCall hread h.dynamicCall]
  rfl

end Members

/-! ## Classes and arrays -/

theorem decodesAt_type {op : Opcode} {index : UInt16} {name : String}
    (hformed : (type op index).WellFormedAt offset) (h : pool.NamesClass index.toNat name) :
    (type op index).DecodesAt pool offset (.type name) := by
  intro rest
  have hformat := format_of_type op hformed
  refine decodeInstruction_of_index [] rest (List.append_nil _) hformat (fun _ => rfl) ?_
  intro hread
  rw [decodeOperand, resolve_of_read .type hread h.className]
  rfl

theorem decodesAt_primitiveArray (element : UInt8) :
    (primitiveArray element).DecodesAt pool offset .none := by
  intro rest
  have hformat : Opcode.format? Opcode.newarray = some .primitive := rfl
  exact decodeInstruction_of_format hformat rfl rfl

theorem decodesAt_arrays {index : UInt16} {name : String} (dimensions : UInt8)
    (h : pool.NamesClass index.toNat name) :
    (arrays index dimensions).DecodesAt pool offset (.arrays name dimensions.toNat) := by
  intro rest
  have hformat : Opcode.format? Opcode.multianewarray = some .arrays := rfl
  have hdimensions : readUnsigned 1 3
      (Opcode.multianewarray :: (spell 2 index.toNat ++ [dimensions])) = .ok dimensions.toNat := by
    refine readUnsigned_of_spelled (Opcode.multianewarray :: spell 2 index.toNat) [] ?_ ?_
      dimensions.toNat_lt
    · simp
    · rw [List.length_cons, length_spell]
  refine decodeInstruction_of_index [dimensions] rest rfl hformat (fun _ => rfl) ?_
  intro hread
  rw [decodeOperand, resolve_of_read .arrayType hread h.className]
  simp only [bind, Except.bind, hdimensions]
  rfl

/-! ## Every instruction -/

/-- A well-formed instruction is decoded to what it denotes, and its length
is that of its bytes, whatever stands behind it. -/
theorem decodeInstruction_encode {raw : RawInstruction} {operand : Operand} (rest : List UInt8)
    (hformed : raw.WellFormedAt offset) (hdenotes : raw.Denotes pool operand) :
    decodeInstruction pool offset (raw.encode offset ++ rest) =
      .ok (⟨offset, raw.opcode, operand⟩, (raw.encode offset).length) := by
  cases raw with
  | plain op =>
    obtain rfl := hdenotes
    exact decodeInstruction_of_bare rest (format_of_plain op hformed)
  | literal op value =>
    obtain rfl := hdenotes
    exact decodeInstruction_of_bare rest (format_of_literal (op, value) hformed)
  | shortLoad family index =>
    obtain rfl := hdenotes
    exact decodeInstruction_of_bare rest (format_of_shortLoad family index)
  | shortStore family index =>
    obtain rfl := hdenotes
    exact decodeInstruction_of_bare rest (format_of_shortStore family index)
  | bytePush value =>
    obtain rfl := hdenotes
    exact decodesAt_bytePush value rest
  | shortPush value =>
    obtain rfl := hdenotes
    exact decodesAt_shortPush value rest
  | loadConstant index =>
    obtain ⟨literal, hholds, rfl⟩ := hdenotes
    exact decodesAt_loadConstant hholds rest
  | loadConstantWide op index =>
    obtain ⟨literal, hholds, rfl⟩ := hdenotes
    exact decodesAt_loadConstantWide hformed hholds rest
  | localVar op index =>
    obtain rfl := hdenotes
    exact decodesAt_localVar hformed rest
  | wideLocalVar op index =>
    obtain rfl := hdenotes
    exact decodesAt_wideLocalVar hformed rest
  | increment index amount =>
    obtain rfl := hdenotes
    exact decodesAt_increment index amount rest
  | wideIncrement index amount =>
    obtain rfl := hdenotes
    exact decodesAt_wideIncrement index amount rest
  | jump op target =>
    obtain rfl := hdenotes
    exact decodesAt_jump hformed rest
  | longJump op target =>
    obtain rfl := hdenotes
    exact decodesAt_longJump hformed rest
  | tableSwitch padding default low targets =>
    obtain rfl := hdenotes
    exact decodesAt_tableSwitch hformed rest
  | lookupSwitch padding default pairs =>
    obtain rfl := hdenotes
    exact decodesAt_lookupSwitch hformed rest
  | field op index =>
    obtain ⟨member, hmember, rfl⟩ := hdenotes
    exact decodesAt_field hformed hmember rest
  | call kind index =>
    obtain ⟨member, hmember, rfl⟩ := hdenotes
    exact decodesAt_call hformed hmember rest
  | interfaceCall index first second =>
    obtain ⟨member, hmember, rfl⟩ := hdenotes
    exact decodesAt_interfaceCall first second hmember rest
  | dynamicCall index first second =>
    obtain ⟨name, descriptor, hcall, rfl⟩ := hdenotes
    exact decodesAt_dynamicCall first second hcall rest
  | type op index =>
    obtain ⟨name, hname, rfl⟩ := hdenotes
    exact decodesAt_type hformed hname rest
  | primitiveArray element =>
    obtain rfl := hdenotes
    exact decodesAt_primitiveArray element rest
  | arrays index dimensions =>
    obtain ⟨name, hname, rfl⟩ := hdenotes
    exact decodesAt_arrays dimensions hname rest

theorem encode_ne_nil (offset : Nat) (raw : RawInstruction) : raw.encode offset ≠ [] := by
  cases raw <;> exact List.cons_ne_nil _ _

end RawInstruction

/-! ## All of the code -/

/-- The decoder goes on behind an instruction that it has decoded. -/
theorem decodeFrom_append {pool : ConstantPool} {offset : Nat} {bytes rest : List UInt8}
    {inst : Instruction} {later : List Instruction} (hbytes : bytes ≠ [])
    (hfirst : decodeInstruction pool offset (bytes ++ rest) = .ok (inst, bytes.length))
    (hrest : decodeFrom pool (offset + bytes.length) rest = .ok later) :
    decodeFrom pool offset (bytes ++ rest) = .ok (inst :: later) := by
  obtain ⟨op, tail, rfl⟩ := List.exists_cons_of_ne_nil hbytes
  have hdrop : (op :: tail ++ rest).drop (op :: tail).length = rest := List.drop_left
  rw [List.cons_append] at hfirst hdrop ⊢
  rw [decodeFrom]
  split
  · rename_i fault hfault
    rw [hfirst] at hfault
    cases hfault
  · rename_i found length hfound
    rw [hfirst] at hfound
    cases hfound
    rw [hdrop, hrest]
    rfl

theorem decodeFrom_assemble {pool : ConstantPool} {offset : Nat} {raws : List RawInstruction}
    {insts : List Instruction} (h : Laid pool offset raws insts) :
    decodeFrom pool offset (assemble offset raws) = .ok insts := by
  induction h with
  | nil =>
    rw [assemble, decodeFrom]
  | cons wellFormed denotes behind ih =>
    exact decodeFrom_append (RawInstruction.encode_ne_nil _ _)
      (RawInstruction.decodeInstruction_encode _ wellFormed denotes) ih

/-- Code that was assembled is decoded to the instructions that were laid,
at their offsets. -/
theorem decode_assemble {pool : ConstantPool} {raws : List RawInstruction}
    {insts : List Instruction} (h : Laid pool 0 raws insts) :
    decode pool (assemble 0 raws) = .ok insts :=
  decodeFrom_assemble h

/-- A pool with the static method `Demo.run()`. -/
def demoPool : ConstantPool :=
  #[.empty, .utf8 "Demo", .type 1, .utf8 "run", .utf8 "()V", .nameAndType 3 4, .method 2 5]

/-- A wide increment, and a switch back to it whose padding is not zero. -/
def switchBack : List RawInstruction :=
  [ .plain 0x00
  , .plain 0x00
  , .wideIncrement 300 0xffff
  , .tableSwitch [1, 2, 3] 32 (-1) [35, 2]
  , .call .static 6
  , .plain 0xb1 ]

theorem decode_switchBack :
    Laid demoPool 0 switchBack
        [ ⟨0, 0x00, .none⟩
        , ⟨1, 0x00, .none⟩
        , ⟨2, .iinc, .localVar 300⟩
        , ⟨8, .tableswitch, .switch 32 [35, 2]⟩
        , ⟨32, .invokestatic, .call ⟨.static, "Demo", "run", "()V"⟩⟩
        , ⟨35, .voidReturn, .none⟩ ] ∧
      assemble 0 switchBack =
        [ 0, 0, 0xc4, 0x84, 1, 44, 255, 255, 0xaa, 1, 2, 3, 0, 0, 0, 24, 255, 255, 255, 255
        , 0, 0, 0, 0, 0, 0, 0, 27, 255, 255, 255, 250, 0xb8, 0, 6, 0xb1 ] ∧
      decode demoPool (assemble 0 switchBack) = .ok
        [ ⟨0, 0x00, .none⟩
        , ⟨1, 0x00, .none⟩
        , ⟨2, .iinc, .localVar 300⟩
        , ⟨8, .tableswitch, .switch 32 [35, 2]⟩
        , ⟨32, .invokestatic, .call ⟨.static, "Demo", "run", "()V"⟩⟩
        , ⟨35, .voidReturn, .none⟩ ] := by
  have hrun : demoPool.NamesMember 6 ⟨"Demo", "run", "()V"⟩ :=
    ⟨2, 5, by simp [demoPool], ⟨1, rfl, rfl⟩, 3, 4, rfl, rfl, rfl⟩
  have hlaid : Laid demoPool 0 switchBack
      [ ⟨0, 0x00, .none⟩
      , ⟨1, 0x00, .none⟩
      , ⟨2, .iinc, .localVar 300⟩
      , ⟨8, .tableswitch, .switch 32 [35, 2]⟩
      , ⟨32, .invokestatic, .call ⟨.static, "Demo", "run", "()V"⟩⟩
      , ⟨35, .voidReturn, .none⟩ ] := by
    refine .cons (by decide : (0x00 : Opcode) ∈ plainOpcodes) rfl ?_
    refine .cons (by decide : (0x00 : Opcode) ∈ plainOpcodes) rfl ?_
    refine .cons trivial rfl ?_
    refine .cons ?switch rfl ?_
    case switch =>
      refine ⟨⟨by decide, by decide⟩, by decide, by decide, by decide, ?_⟩
      exact List.forall_mem_cons.2 ⟨by decide, List.forall_mem_singleton.2 (by decide)⟩
    refine .cons (by decide : CallKind.static ≠ .interface) ⟨_, hrun, rfl⟩ ?_
    exact .cons (by decide : (0xb1 : Opcode) ∈ plainOpcodes) rfl .nil
  exact ⟨hlaid, by decide +kernel, decode_assemble hlaid⟩

end BytecodeLint.Bytecode
