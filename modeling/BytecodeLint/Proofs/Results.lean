import Mathlib.Data.List.Forall2

/-!
# Computations that may fail

What the success of a computation says about its parts.  Nothing here is about
class files: these are the steps by which a decoder or a scan that succeeds is
taken apart.
-/

namespace BytecodeLint

variable {ε α β : Type}

/-- A computation that succeeds is taken apart at its first step. -/
theorem exists_ok_of_bind {first : Except ε α} {next : α → Except ε β} {value : β}
    (h : first >>= next = .ok value) : ∃ found, first = .ok found ∧ next found = .ok value := by
  cases first with
  | error fault => cases h
  | ok found => exact ⟨found, rfl, h⟩

theorem map_eq_ok_iff {f : α → β} {result : Except ε α} {value : β} :
    f <$> result = .ok value ↔ ∃ found, result = .ok found ∧ f found = value := by
  cases result with
  | error fault => exact ⟨nofun, fun ⟨_, h, _⟩ => nomatch h⟩
  | ok found =>
    refine ⟨fun h => ⟨found, rfl, Except.ok.inj h⟩, ?_⟩
    rintro ⟨_, ⟨⟩, rfl⟩
    rfl

/-- Another word for the fault does not make a computation succeed. -/
theorem ok_of_mapError {ε' : Type} {f : ε → ε'} {result : Except ε α} {value : α}
    (h : result.mapError f = .ok value) : result = .ok value := by
  cases result with
  | error fault => cases h
  | ok found =>
    cases h
    rfl

theorem toOption_mapError {ε' : Type} (f : ε → ε') (result : Except ε α) :
    (result.mapError f).toOption = result.toOption := by
  cases result <;> rfl

/-- A list is read if each of its elements is. -/
theorem mapM_eq_ok_iff {read : α → Except ε β} {list : List α} {results : List β} :
    list.mapM read = .ok results ↔
      List.Forall₂ (fun item result => read item = .ok result) list results := by
  induction list generalizing results with
  | nil =>
    cases results with
    | nil => exact ⟨fun _ => .nil, fun _ => rfl⟩
    | cons _ _ => exact ⟨nofun, nofun⟩
  | cons item rest ih =>
    rw [List.mapM_cons]
    constructor
    · intro h
      obtain ⟨result, hitem, h⟩ := exists_ok_of_bind h
      obtain ⟨later, hrest, h⟩ := exists_ok_of_bind h
      cases h
      exact .cons hitem (ih.1 hrest)
    · rintro (_ | ⟨hitem, hrest⟩)
      rw [hitem, ih.2 hrest]
      rfl

end BytecodeLint
