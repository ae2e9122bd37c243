import Mathlib.Algebra.Order.BigOperators.Group.List
import Mathlib.Algebra.Order.Ring.Nat

/-! The length of a string and its first part, counted in UTF-16 code units. -/
namespace DocAuto.Text

def units (c : Char) : Nat := if c.toNat < 0x10000 then 1 else 2

/-- `s.length`. -/
def length (s : String) : Nat := (s.toList.map units).sum

/-- Half a pair of surrogates, where the cut leaves one, is what UTF-8 encoders make of it. -/
def takeUnits : Nat → List Char → List Char
  | _, [] => []
  | n, c :: cs => if n = 0 then [] else if units c ≤ n then c :: takeUnits (n - units c) cs else [Char.ofNat 0xFFFD]

/-- `s.slice(0, n)`. -/
def sliceStart (n : Nat) (s : String) : String := String.ofList (takeUnits n s.toList)

theorem length_le (s : String) : s.length ≤ length s := by
  have hone : ∀ n ∈ s.toList.map units, 1 ≤ n := by
    intro n hn
    obtain ⟨c, -, rfl⟩ := List.mem_map.1 hn
    unfold units
    split <;> omega
  have hle := List.length_le_sum_of_one_le _ hone
  rwa [List.length_map, String.length_toList] at hle

end DocAuto.Text
