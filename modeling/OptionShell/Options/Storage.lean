import OptionShell.Table

/-!
# Storage of option values

Option values are 32-bit integers in numbered cells. A cell belongs to the definitions that name it and may be read
directly by the code that the option controls. A cell that was never written holds zero.
-/
namespace OptionShell

abbrev CellId := Nat

structure Storage where
  cells : Table CellId Int32

namespace Storage

/-- Storage whose first cells hold the given values. -/
def ofList (values : List Int32) : Storage := ⟨Table.ofList (values.mapIdx fun i value => (i, value))⟩

def read (s : Storage) (cell : CellId) : Int32 := (s.cells.find? cell).getD 0

def write (s : Storage) (cell : CellId) (value : Int32) : Storage := ⟨s.cells.insert cell value⟩

theorem read_write (s : Storage) (cell c : CellId) (value : Int32) :
    (s.write cell value).read c = if c = cell then value else s.read c := by
  rw [read, write, Table.find?_insert]
  split <;> rfl

@[simp] theorem read_write_self (s : Storage) (cell : CellId) (value : Int32) :
    (s.write cell value).read cell = value := by simp [read_write]

theorem read_write_of_ne (s : Storage) {cell c : CellId} (value : Int32) (h : c ≠ cell) :
    (s.write cell value).read c = s.read c := by simp [read_write, h]

end Storage

end OptionShell
