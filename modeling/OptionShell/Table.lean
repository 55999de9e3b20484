/-!
# Ordered tables

A table holds values under keys, with its entries in strictly ascending key order. Variables, commands,
extensions and the letters of the option registry are tables. The main statements say what `find?` answers
after each operation.
-/
namespace OptionShell

/-- Values under keys; the entries ascend strictly, so a key occurs at most once. -/
structure Table (κ ν : Type) [Ord κ] where
  entries : List (κ × ν)
  ascending : entries.Pairwise fun a b => compare a.1 b.1 = .lt

namespace Table

variable {κ ν : Type} [Ord κ]

def empty : Table κ ν := ⟨[], .nil⟩

instance : Inhabited (Table κ ν) := ⟨empty⟩

def keys (t : Table κ ν) : List κ := t.entries.map (·.1)

def values (t : Table κ ν) : List ν := t.entries.map (·.2)

def size (t : Table κ ν) : Nat := t.entries.length

def isEmpty (t : Table κ ν) : Bool := t.entries.isEmpty

def filter (p : κ → ν → Bool) (t : Table κ ν) : Table κ ν :=
  ⟨t.entries.filter fun e => p e.1 e.2, t.ascending.filter _⟩

/-- Puts an entry where its key belongs, in place of one with the same key. -/
def place (key : κ) (value : ν) : List (κ × ν) → List (κ × ν)
  | [] => [(key, value)]
  | e :: rest =>
    match compare key e.1 with
    | .lt => (key, value) :: e :: rest
    | .eq => (key, value) :: rest
    | .gt => e :: place key value rest

theorem mem_of_mem_place {key : κ} {value : ν} {entries : List (κ × ν)} {e : κ × ν}
    (h : e ∈ place key value entries) : e = (key, value) ∨ e ∈ entries := by
  induction entries with
  | nil => exact .inl (List.mem_singleton.mp h)
  | cons head rest ih =>
    rw [place] at h
    split at h
    · exact List.mem_cons.mp h
    · exact (List.mem_cons.mp h).imp_right (List.mem_cons_of_mem head)
    · rcases List.mem_cons.mp h with rfl | h
      · exact .inr List.mem_cons_self
      · exact (ih h).imp_right (List.mem_cons_of_mem head)

theorem pairwise_place [Std.TransOrd κ] [Std.LawfulEqOrd κ] {key : κ} {value : ν} {entries : List (κ × ν)}
    (h : entries.Pairwise fun a b => compare a.1 b.1 = .lt) :
    (place key value entries).Pairwise fun a b => compare a.1 b.1 = .lt := by
  induction entries with
  | nil => exact List.pairwise_singleton ..
  | cons head rest ih =>
    obtain ⟨hHead, hRest⟩ := List.pairwise_cons.mp h
    rw [place]
    split
    case h_1 hlt =>
      refine List.pairwise_cons.mpr ⟨fun e he => ?_, h⟩
      rcases List.mem_cons.mp he with rfl | he
      · exact hlt
      · exact Std.TransCmp.lt_trans hlt (hHead e he)
    case h_2 heq =>
      refine List.pairwise_cons.mpr ⟨fun e he => ?_, hRest⟩
      rw [Std.LawfulEqCmp.compare_eq_iff_eq.mp heq]
      exact hHead e he
    case h_3 hgt =>
      refine List.pairwise_cons.mpr ⟨fun e he => ?_, ih hRest⟩
      rcases mem_of_mem_place he with rfl | he
      · exact Std.OrientedCmp.gt_iff_lt.mp hgt
      · exact hHead e he

/-- Adds an entry, or replaces the value under its key. -/
def insert [Std.TransOrd κ] [Std.LawfulEqOrd κ] (key : κ) (value : ν) (t : Table κ ν) : Table κ ν :=
  ⟨place key value t.entries, pairwise_place t.ascending⟩

/-- The table of a list of entries; of two entries under one key the later counts. -/
def ofList [Std.TransOrd κ] [Std.LawfulEqOrd κ] (entries : List (κ × ν)) : Table κ ν :=
  entries.foldl (fun t e => t.insert e.1 e.2) empty

variable [DecidableEq κ]

def find? (t : Table κ ν) (key : κ) : Option ν := t.entries.lookup key

def contains (t : Table κ ν) (key : κ) : Bool := (t.find? key).isSome

def erase (key : κ) (t : Table κ ν) : Table κ ν := t.filter fun k _ => k ≠ key

def modify (key : κ) (f : ν → ν) (t : Table κ ν) : Table κ ν :=
  ⟨t.entries.map fun e => if e.1 = key then (e.1, f e.2) else e, by
    refine List.pairwise_map.mpr (t.ascending.imp fun {a b} h => ?_)
    by_cases ha : a.1 = key <;> by_cases hb : b.1 = key <;> simpa [ha, hb] using h⟩

@[simp] theorem find?_empty (key : κ) : (empty : Table κ ν).find? key = none := rfl

omit [Ord κ] in
theorem lookup_cons_ite (k : κ) (e : κ × ν) (rest : List (κ × ν)) :
    (e :: rest).lookup k = if k = e.1 then some e.2 else rest.lookup k := by
  by_cases h : k = e.1
  · rw [List.lookup_cons, beq_iff_eq.mpr h, if_pos h]
  · rw [List.lookup_cons, beq_false_of_ne h, if_neg h]

theorem lookup_place [Std.TransOrd κ] [Std.LawfulEqOrd κ] (key k : κ) (value : ν) (entries : List (κ × ν)) :
    (place key value entries).lookup k = if k = key then some value else entries.lookup k := by
  induction entries with
  | nil => simp [place, lookup_cons_ite]
  | cons e rest ih =>
    rw [place]
    split
    case h_1 => rw [lookup_cons_ite]
    case h_2 heq =>
      rw [lookup_cons_ite, lookup_cons_ite, Std.LawfulEqCmp.compare_eq_iff_eq.mp heq]
      split <;> rfl
    case h_3 hgt =>
      have hne : key ≠ e.1 := by
        rintro rfl
        simp [Std.ReflCmp.compare_self] at hgt
      rw [lookup_cons_ite, lookup_cons_ite, ih]
      by_cases h : k = key
      · rw [if_pos h, h, if_neg hne, if_pos rfl]
      · rw [if_neg h, if_neg h]

theorem find?_insert [Std.TransOrd κ] [Std.LawfulEqOrd κ] (t : Table κ ν) (key k : κ) (value : ν) :
    (t.insert key value).find? k = if k = key then some value else t.find? k :=
  lookup_place key k value t.entries

omit [Ord κ] in
theorem lookup_filter_ne (entries : List (κ × ν)) (key k : κ) :
    (entries.filter fun e => decide (e.1 ≠ key)).lookup k = if k = key then none else entries.lookup k := by
  induction entries with
  | nil => simp
  | cons e rest ih =>
    by_cases he : e.1 = key
    · rw [List.filter_cons_of_neg (by simp [he]), ih, lookup_cons_ite, he]
      split <;> rfl
    · rw [List.filter_cons_of_pos (by simp [he]), lookup_cons_ite, lookup_cons_ite, ih]
      by_cases h : k = key
      · rw [if_pos h, h, if_neg (Ne.symm he), if_pos rfl]
      · rw [if_neg h, if_neg h]

theorem find?_erase (t : Table κ ν) (key k : κ) :
    (t.erase key).find? k = if k = key then none else t.find? k :=
  lookup_filter_ne t.entries key k

omit [Ord κ] in
theorem lookup_map_at (entries : List (κ × ν)) (key k : κ) (f : ν → ν) :
    (entries.map fun e => if e.1 = key then (e.1, f e.2) else e).lookup k =
      if k = key then (entries.lookup k).map f else entries.lookup k := by
  induction entries with
  | nil => simp
  | cons e rest ih =>
    rw [List.map_cons, lookup_cons_ite, lookup_cons_ite, ih]
    by_cases he : e.1 = key <;> by_cases hk : k = key
    · simp [he, hk]
    · simp [he, hk]
    · simp [he, hk, Ne.symm he]
    · simp [he, hk]

theorem find?_modify (t : Table κ ν) (key k : κ) (f : ν → ν) :
    (t.modify key f).find? k = if k = key then (t.find? k).map f else t.find? k :=
  lookup_map_at t.entries key k f

/-- Looking a key up finds exactly the entry under it. -/
theorem find?_eq_some_iff [Std.TransOrd κ] (t : Table κ ν) (key : κ) (value : ν) :
    t.find? key = some value ↔ (key, value) ∈ t.entries := by
  obtain ⟨entries, hAscending⟩ := t
  simp only [find?]
  induction entries with
  | nil => simp
  | cons e rest ih =>
    obtain ⟨hHead, hRest⟩ := List.pairwise_cons.mp hAscending
    rw [lookup_cons_ite, List.mem_cons, Prod.ext_iff]
    by_cases h : key = e.1
    · have hOut : (key, value) ∉ rest := fun hMem => by
        simpa [h, Std.ReflCmp.compare_self] using hHead _ hMem
      simp [h ▸ hOut, h, eq_comm]
    · simp [h, ih hRest]

omit [DecidableEq κ] in
theorem eq_of_entries_eq {t u : Table κ ν} (h : t.entries = u.entries) : t = u := by
  cases t
  cases u
  cases h
  rfl

/-- A filter that drops a new entry does not notice it. -/
theorem filter_insert [Std.TransOrd κ] [Std.LawfulEqOrd κ] {t : Table κ ν} {key : κ} {value : ν}
    {p : κ → ν → Bool} (h : t.find? key = none) (hValue : p key value = false) :
    (t.insert key value).filter p = t.filter p := by
  obtain ⟨entries, hAscending⟩ := t
  simp only [find?] at h
  apply eq_of_entries_eq
  simp only [filter, insert]
  clear hAscending
  induction entries with
  | nil => simp [place, hValue]
  | cons e rest ih =>
    rw [lookup_cons_ite] at h
    split at h
    · cases h
    · rename_i hne
      rw [place]
      split
      case h_1 => simp [hValue]
      case h_2 heq => exact absurd (Std.LawfulEqCmp.compare_eq_iff_eq.mp heq) hne
      case h_3 => rw [List.filter_cons, List.filter_cons, ih h]

end Table

end OptionShell
