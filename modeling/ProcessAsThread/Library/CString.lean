import ProcessAsThread.Library.ByteMemory

/-! Text in a byte-addressed memory, and C strings: the bytes up to the first NUL. -/

namespace ProcessAsThread.Library.Memory

/-- The bytes from an address on spell a text. -/
def Spells (memory : Memory) : Nat → List UInt8 → Prop
  | _, [] => True
  | address, byte :: rest => memory address = byte ∧ Spells memory (address + 1) rest

def spell (memory : Memory) : Nat → List UInt8 → Memory
  | _, [] => memory
  | address, byte :: rest => Function.update (spell memory (address + 1) rest) address byte

/-- The string in a character array of a given size, from an address in it on. -/
def cString (memory : Memory) : Nat → Nat → List UInt8
  | 0, _ => []
  | size + 1, address =>
    if memory address = 0 then [] else memory address :: cString memory size (address + 1)

variable {memory memory' : Memory} {address : Nat} {text rest : List UInt8}

theorem spells_append : memory.Spells address (text ++ rest) ↔
    memory.Spells address text ∧ memory.Spells (address + text.length) rest := by
  induction text generalizing address with
  | nil => simp [Spells]
  | cons byte text ih =>
    simp only [List.cons_append, Spells, ih, List.length_cons]
    rw [and_assoc, Nat.add_assoc, Nat.add_comm 1]

theorem Spells.congr (spells : memory.Spells address text)
    (same : ∀ place, address ≤ place → place < address + text.length → memory' place = memory place) :
    memory'.Spells address text := by
  induction text generalizing address with
  | nil => trivial
  | cons byte text ih =>
    simp only [List.length_cons] at same
    refine ⟨?_, ih spells.2 fun place low high => same place (by omega) (by omega)⟩
    rw [same address (Nat.le_refl _) (by omega), spells.1]

/-- What is written below an address does not reach it. -/
theorem spell_update {place : Nat} (below : place < address) (value : UInt8) :
    spell (Function.update memory place value) address text =
      Function.update (memory.spell address text) place value := by
  induction text generalizing address with
  | nil => rfl
  | cons byte text ih =>
    simp only [spell]
    rw [ih (by omega), Function.update_comm (by omega)]

theorem spells_spell : (memory.spell address text).Spells address text := by
  induction text generalizing address with
  | nil => trivial
  | cons byte text ih =>
    refine ⟨by simp [spell], ?_⟩
    refine Spells.congr ih fun place low _ => ?_
    rw [spell, Function.update_of_ne (by omega)]

/-- A text that is written replaces what was there as far as it goes. -/
theorem spell_apply (place : Nat) :
    memory.spell address text (address + place) = text[place]?.getD (memory (address + place)) := by
  induction text generalizing address place with
  | nil => rfl
  | cons byte text ih =>
    cases place with
    | zero => simp [spell]
    | succ place =>
      have behind : address + (place + 1) = address + 1 + place := by omega
      rw [spell, Function.update_of_ne (by omega), behind, ih]
      rfl

/-- A text without NUL that is followed by one is the string at its address. -/
theorem cString_of_spells {size : Nat} (spells : memory.Spells address (text ++ [0]))
    (noNul : ∀ byte ∈ text, byte ≠ 0) (fits : text.length < size) :
    memory.cString size address = text := by
  induction text generalizing address size with
  | nil =>
    cases size with
    | zero => rfl
    | succ size => simp [cString, spells.1]
  | cons byte text ih =>
    cases size with
    | zero => simp at fits
    | succ size =>
      obtain ⟨first, others⟩ := spells
      have nonzero := noNul byte (List.mem_cons_self ..)
      have tail := ih others (fun byte member => noNul byte (List.mem_cons_of_mem _ member))
        (by simpa using fits)
      simp [cString, first, nonzero, tail]

end ProcessAsThread.Library.Memory
