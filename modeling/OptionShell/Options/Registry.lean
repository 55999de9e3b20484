import OptionShell.Options.Definition
import OptionShell.Search

/-!
# The registry of options

The live definitions form one sequence. In this registry order the named ones come first, by name, and then the unnamed
ones as they were registered. Names are searched by halves; letters have a table of their own. Adding a definition puts
it under all of its keys or under none.
-/
namespace OptionShell

def isOptionLetter (c : Char) : Bool := '!' ≤ c && c ≤ '~'

/-- What the named definitions are ordered by. -/
def Definition.sortName {σ : Type} (d : Definition σ) : String := d.name?.getD ""

/-- The first `named` definitions have names that ascend strictly, and the others have none. -/
structure Arranged {σ : Type} (named : Nat) (defs : List (Definition σ)) : Prop where
  bound : named ≤ defs.length
  ascending : (defs.take named).Pairwise fun d e => compare d.sortName e.sortName = .lt
  isSome : ∀ d ∈ defs.take named, d.name?.isSome
  isNone : ∀ d ∈ defs.drop named, d.name? = none

namespace Arranged

variable {σ : Type} {named index : Nat} {defs : List (Definition σ)} {d : Definition σ} {name : String}

theorem nil : Arranged 0 ([] : List (Definition σ)) where
  bound := Nat.le_refl 0
  ascending := .nil
  isSome d hd := by cases hd
  isNone d hd := by cases hd

theorem searchable (h : Arranged named defs) (name : String) :
    Searchable (fun d => compare d.sortName name) (defs.take named) := by
  refine h.ascending.imp fun {d e} hLess => ?_
  cases hFirst : compare d.sortName name with
  | lt => exact .inl hFirst
  | eq =>
    rw [Std.LawfulEqCmp.compare_eq_iff_eq.mp hFirst] at hLess
    exact .inr (Std.OrientedCmp.gt_iff_lt.mpr hLess)
  | gt => exact .inr (Std.OrientedCmp.gt_iff_lt.mpr (Std.TransCmp.lt_trans (Std.OrientedCmp.gt_iff_lt.mp hFirst) hLess))

theorem of_append {front back : List (Definition σ)} (hNamed : front.length = named)
    (hAscending : front.Pairwise fun d e => compare d.sortName e.sortName = .lt) (hSome : ∀ d ∈ front, d.name?.isSome)
    (hNone : ∀ d ∈ back, d.name? = none) : Arranged named (front ++ back) where
  bound := by
    rw [List.length_append]
    omega
  ascending := by rwa [List.take_left' hNamed]
  isSome := by rwa [List.take_left' hNamed]
  isNone := by rwa [List.drop_left' hNamed]

theorem length_take (h : Arranged named defs) : (defs.take named).length = named := by
  rw [List.length_take, Nat.min_eq_left h.bound]

/-- A named definition is inserted where the search for its name ends. -/
theorem insert (h : Arranged named defs) (hName : d.name? = some name)
    (hSearch : search (fun d => compare d.sortName name) (defs.take named) = .error index) :
    Arranged (named + 1) (defs.take index ++ d :: defs.drop index) := by
  obtain ⟨hIndex, hBefore, hAfter⟩ := sides_of_search_eq_error (h.searchable name) hSearch
  rw [h.length_take] at hIndex
  have hDrop : (defs.take named).drop index ++ defs.drop named = defs.drop index := by
    have hBack : defs.drop named = (defs.drop index).drop (named - index) := by
      rw [List.drop_drop, Nat.add_sub_cancel' hIndex]
    rw [List.drop_take, hBack, List.take_append_drop]
  have hDefs : ((defs.take named).take index ++ d :: (defs.take named).drop index) ++ defs.drop named =
      defs.take index ++ d :: defs.drop index := by
    rw [List.take_take, Nat.min_eq_left hIndex, List.append_assoc, List.cons_append, hDrop]
  have hSortName : d.sortName = name := by rw [Definition.sortName, hName]; rfl
  have hAbove : ∀ e ∈ (defs.take named).drop index, compare name e.sortName = .lt :=
    fun e he => Std.OrientedCmp.gt_iff_lt.mp (hAfter e he)
  rw [← hDefs]
  refine of_append ?_ (List.pairwise_append.mpr ⟨h.ascending.sublist (List.take_sublist ..), ?_, ?_⟩) ?_ h.isNone
  · rw [List.length_append, List.length_cons, List.length_take, List.length_drop, h.length_take]
    omega
  · rw [List.pairwise_cons, hSortName]
    exact ⟨hAbove, h.ascending.sublist (List.drop_sublist ..)⟩
  · refine fun e he => List.forall_mem_cons.mpr ⟨hSortName ▸ hBefore e he, fun other hOther => ?_⟩
    exact Std.TransCmp.lt_trans (hBefore e he) (hAbove other hOther)
  · intro e he
    obtain he | he := List.mem_append.mp he
    · exact h.isSome e (List.mem_of_mem_take he)
    · obtain rfl | he := List.mem_cons.mp he
      · rw [hName]
        rfl
      · exact h.isSome e (List.mem_of_mem_drop he)

theorem append (h : Arranged named defs) (hName : d.name? = none) : Arranged named (defs ++ [d]) := by
  have hDefs : defs.take named ++ (defs.drop named ++ [d]) = defs ++ [d] := by
    rw [← List.append_assoc, List.take_append_drop]
  rw [← hDefs]
  refine of_append h.length_take h.ascending h.isSome fun e he => ?_
  obtain he | he := List.mem_append.mp he
  · exact h.isNone e he
  · rw [List.mem_singleton.mp he]
    exact hName

theorem filter (h : Arranged named defs) (p : Definition σ → Bool) :
    Arranged ((defs.take named).countP p) (defs.filter p) := by
  have hDefs : defs.filter p = (defs.take named).filter p ++ (defs.drop named).filter p := by
    rw [← List.filter_append, List.take_append_drop]
  rw [hDefs]
  exact of_append List.countP_eq_length_filter.symm (h.ascending.filter p)
    (fun e he => h.isSome e (List.mem_filter.mp he).1) fun e he => h.isNone e (List.mem_filter.mp he).1

end Arranged

structure Registry (σ : Type) where
  /-- The live definitions in registry order. -/
  entries : List (Definition σ)
  /-- The number of live definitions that have a name. -/
  named : Nat
  byLetter : Table Char (Definition σ)
  arranged : Arranged named entries

namespace Registry

variable {σ : Type}

def empty : Registry σ := ⟨[], 0, .empty, .nil⟩

instance : Inhabited (Registry σ) := ⟨empty⟩

def size (r : Registry σ) : Nat := r.entries.length

/-- The live definitions without a name, in the order of their registration. -/
def unnamed (r : Registry σ) : List (Definition σ) := r.entries.drop r.named

/-- The index of the definition of that name in registry order, or else the index at which one can be inserted. -/
def search (r : Registry σ) (name : String) : Except Nat Nat :=
  OptionShell.search (fun d => compare d.sortName name) (r.entries.take r.named)

def findName? (r : Registry σ) (name : String) : Option (Definition σ) :=
  match r.search name with
  | .ok index => r.entries[index]?
  | .error _ => none

def findLetter? (r : Registry σ) (letter : Char) : Option (Definition σ) := r.byLetter.find? letter

def letters (r : Registry σ) : List Char := r.byLetter.keys

/-- The live definitions that a listing for this reason shows. -/
def visible (r : Registry σ) (why : Access) : List (Definition σ) := r.entries.filter fun d => !why.hides d

/-- How one key of a definition stands to the registry. -/
inductive KeyState where
  /-- The definition has no key of this kind. -/
  | unused
  | free
  | held
  | taken
deriving DecidableEq, Repr

/-- How a key stands whose place is occupied as `occupant?` says. -/
def keyState (d : Definition σ) (occupant? : Option (Definition σ)) : KeyState :=
  match occupant? with
  | none => .free
  | some other => if other.id = d.id then .held else .taken

/-- The state of a definition's place in registry order: its name, or its place among the unnamed. -/
def placeState (r : Registry σ) (d : Definition σ) : KeyState :=
  match d.name? with
  | some name => keyState d (r.findName? name)
  | none => if r.unnamed.any fun other => other.id = d.id then .held else .free

def letterState (r : Registry σ) (d : Definition σ) : KeyState :=
  match d.letter? with
  | some letter => keyState d (r.findLetter? letter)
  | none => .unused

/-- Puts a definition into the sequence: where the search for its name ends, or at the end if it has none. -/
def addPlace (d : Definition σ) (r : Registry σ) : Registry σ :=
  match hName : d.name? with
  | some name =>
    match hSearch : r.search name with
    | .ok _ => r
    | .error index =>
      { r with
        entries := r.entries.take index ++ d :: r.entries.drop index
        named := r.named + 1
        arranged := r.arranged.insert hName hSearch }
  | none => { r with entries := r.entries ++ [d], arranged := r.arranged.append hName }

def addLetter (d : Definition σ) (r : Registry σ) : Registry σ :=
  match d.letter? with
  | some letter => { r with byLetter := r.byLetter.insert letter d }
  | none => r

/-- Adds a definition. `badValue` means that its letter is no option letter, `duplicate` that another definition has
its name or letter, and `unchanged` that it is registered already. -/
def add (d : Definition σ) (r : Registry σ) : Outcome × Registry σ :=
  if d.letter?.any fun letter => !isOptionLetter letter then (.badValue, r)
  else
    let place := r.placeState d
    let letter := r.letterState d
    if place = .taken ∨ letter = .taken then (.duplicate, r)
    else if place ≠ .free ∧ letter ≠ .free then (.unchanged, r)
    else
      let r := if place = .free then r.addPlace d else r
      (.ok, if letter = .free then r.addLetter d else r)

/-- Whether any key leads to the definition. -/
def holds (d : Definition σ) (r : Registry σ) : Bool :=
  (r.entries ++ r.byLetter.values).any fun other => other.id = d.id

/-- The registry of the definitions that a test selects. -/
def select (p : Definition σ → Bool) (r : Registry σ) : Registry σ where
  entries := r.entries.filter p
  named := (r.entries.take r.named).countP p
  byLetter := r.byLetter.filter fun _ d => p d
  arranged := r.arranged.filter p

def remove (d : Definition σ) (r : Registry σ) : Registry σ := r.select fun other => other.id ≠ d.id

end Registry

end OptionShell
