/-!
# Binary search

A comparison with what is sought sorts a list if the items that come before it stand first, then at most one that
matches, and then those that come after it. The search halves the list. It finds the item that matches, or else the
place where one could be inserted.
-/
namespace OptionShell

variable {α : Type}

/-- Of any two items the first comes before what is sought or the second after it. -/
def Searchable (order : α → Ordering) (items : List α) : Prop :=
  items.Pairwise fun a b => order a = .lt ∨ order b = .gt

/-- Searches the items from `left` on and before `right`. Each round halves them; as many rounds as items are enough. -/
def searchFrom (order : α → Ordering) (items : List α) :
    (rounds left right : Nat) → right ≤ items.length → Except Nat Nat
  | 0, left, _, _ => .error left
  | rounds + 1, left, right, hRight =>
    if hLeft : left < right then
      let middle := left + (right - left) / 2
      have hMiddle : middle < items.length := by omega
      match order items[middle] with
      | .lt => searchFrom order items rounds (middle + 1) right hRight
      | .eq => .ok middle
      | .gt => searchFrom order items rounds left middle (by omega)
    else .error left

/-- The index of the item that matches, or else the index at which one can be inserted. -/
def search (order : α → Ordering) (items : List α) : Except Nat Nat :=
  searchFrom order items items.length 0 items.length (Nat.le_refl _)

section Results

variable {order : α → Ordering} {items : List α} {rounds left right index : Nat} {hRight : right ≤ items.length}

theorem getElem?_of_searchFrom_eq_ok (h : searchFrom order items rounds left right hRight = .ok index) :
    ∃ item, items[index]? = some item ∧ order item = .eq := by
  fun_induction searchFrom order items rounds left right hRight with
  | case1 left => cases h
  | case2 rounds left right hRight hLeft middle hMiddle hOrder ih => exact ih h
  | case3 rounds left right hRight hLeft middle hMiddle hOrder =>
    rw [← Except.ok.inj h]
    exact ⟨items[middle], List.getElem?_eq_getElem hMiddle, hOrder⟩
  | case4 rounds left right hRight hLeft middle hMiddle hOrder ih => exact ih h
  | case5 rounds left right hRight hLeft => cases h

theorem getElem?_of_search_eq_ok (h : search order items = .ok index) :
    ∃ item, items[index]? = some item ∧ order item = .eq :=
  getElem?_of_searchFrom_eq_ok h

/-- Every half that is given up lies on one side of what is sought. -/
theorem sides_of_searchFrom_eq_error (hSorted : Searchable order items) (hBounds : left ≤ right)
    (hRounds : right - left ≤ rounds) (hBefore : ∀ i (hi : i < items.length), i < left → order items[i] = .lt)
    (hAfter : ∀ i (hi : i < items.length), right ≤ i → order items[i] = .gt)
    (h : searchFrom order items rounds left right hRight = .error index) :
    index ≤ items.length ∧ (∀ i (hi : i < items.length), i < index → order items[i] = .lt) ∧
      ∀ i (hi : i < items.length), index ≤ i → order items[i] = .gt := by
  have hPairs := List.pairwise_iff_getElem.mp hSorted
  fun_induction searchFrom order items rounds left right hRight with
  | case1 right left hRight =>
    obtain rfl := Except.error.inj h
    obtain rfl : left = right := by omega
    exact ⟨hRight, hBefore, hAfter⟩
  | case2 rounds left right hRight hLeft middle hMiddle hOrder ih =>
    refine ih (by omega) (by omega) (fun i hi hBelow => ?_) hAfter h
    obtain rfl | hBelow := Nat.eq_or_lt_of_le (Nat.le_of_lt_succ hBelow)
    · exact hOrder
    · refine (hPairs i middle hi hMiddle hBelow).resolve_right ?_
      rw [hOrder]
      exact nofun
  | case3 rounds left right hRight hLeft middle hMiddle hOrder => cases h
  | case4 rounds left right hRight hLeft middle hMiddle hOrder ih =>
    refine ih (by omega) (by omega) hBefore (fun i hi hAbove => ?_) h
    obtain rfl | hAbove := Nat.eq_or_lt_of_le hAbove
    · exact hOrder
    · refine (hPairs middle i hMiddle hi hAbove).resolve_left ?_
      rw [hOrder]
      exact nofun
  | case5 rounds left right hRight hLeft =>
    obtain rfl := Except.error.inj h
    obtain rfl : left = right := Nat.le_antisymm hBounds (Nat.not_lt.mp hLeft)
    exact ⟨hRight, hBefore, hAfter⟩

/-- Where nothing matches, the items before the index come before what is sought, and the others come after it. -/
theorem sides_of_search_eq_error (hSorted : Searchable order items) (h : search order items = .error index) :
    index ≤ items.length ∧ (∀ item ∈ items.take index, order item = .lt) ∧
      ∀ item ∈ items.drop index, order item = .gt := by
  obtain ⟨hIndex, hBefore, hAfter⟩ := sides_of_searchFrom_eq_error hSorted (Nat.zero_le _) (Nat.le_refl _)
    (fun _ _ h => nomatch h)
    (fun i hi hOut => absurd hi (Nat.not_lt.mpr hOut)) h
  refine ⟨hIndex, fun item hItem => ?_, fun item hItem => ?_⟩
  · obtain ⟨i, hi, rfl⟩ := List.mem_take_iff_getElem.mp hItem
    exact hBefore i (by omega) (by omega)
  · obtain ⟨i, hi, rfl⟩ := List.mem_drop_iff_getElem.mp hItem
    exact hAfter _ _ (by omega)

/-- The search finds what matches. -/
theorem search_ne_error (hSorted : Searchable order items) {item : α} (hItem : item ∈ items)
    (hOrder : order item = .eq) : search order items ≠ .error index := by
  intro h
  obtain ⟨-, hBefore, hAfter⟩ := sides_of_search_eq_error hSorted h
  rw [← List.take_append_drop index items, List.mem_append] at hItem
  obtain hItem | hItem := hItem
  · rw [hBefore item hItem] at hOrder
    cases hOrder
  · rw [hAfter item hItem] at hOrder
    cases hOrder

end Results

end OptionShell
