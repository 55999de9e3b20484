import OptionShell.Proofs.Commutes
import OptionShell.Proofs.Shell.Cleanup

/-!
# Changes that pass by the state of the extension

Setting options, refreshing rosters and leaving the extension do the same whatever the state of the extension is. No
roster lists an option whose value depends on it, and no setter asks for one.
-/
namespace OptionShell

namespace Shell

variable {s : Options (Host Unit)} {d : Definition (Host Unit)}

/-- The options with another state of the extension. -/
def withPrime (p : Prime.State) (s : Options (Host Unit)) : Options (Host Unit) :=
  s.mapHost fun host => { host with prime := p }

variable (p : Prime.State)

theorem refresh_withPrime (hWithin : s.registry.Within Family) (roster : Roster) :
    (withPrime p s).refresh roster = withPrime p (s.refresh roster) := by
  have hText : (withPrime p s).rosterText roster = s.rosterText roster :=
    Options.rosterText_mapHost (ownCells_family.determined hWithin roster) _
  rw [Options.refresh, Options.refresh, hText]
  change (if s.attached then _ else _) = _
  split
  · rfl
  · rfl

theorem refreshFor_withPrime (hWithin : s.registry.Within Family) (d : Definition (Host Unit)) :
    (withPrime p s).refreshFor d = withPrime p (s.refreshFor d) := by
  have hFirst : (if d.inShellopts then (withPrime p s).refresh .shellopts else withPrime p s) =
      withPrime p (if d.inShellopts then s.refresh .shellopts else s) := by
    split
    · exact refresh_withPrime p hWithin .shellopts
    · rfl
  have hKept : (if d.inShellopts then s.refresh .shellopts else s).registry.Within Family := by
    split
    · obtain ⟨f, hf⟩ := Options.refresh_eq_mapHost .shellopts s
      rw [hf]
      exact hWithin
    · exact hWithin
  rw [Options.refreshFor, Options.refreshFor, hFirst]
  split
  · exact refresh_withPrime p hKept .bashopts
  · rfl

/-- An option that a roster lists reads the same. The others refresh nothing when they go. -/
theorem refreshFor_withPrime_if_on (hWithin : s.registry.Within Family) (hd : d ∈ Family) (why : Access) :
    (if (withPrime p s).isOn d why then (withPrime p s).refreshFor d else withPrime p s) =
      withPrime p (if s.isOn d why then s.refreshFor d else s) := by
  by_cases hListed : ∃ roster : Roster, roster.mirrors d = true
  · obtain ⟨roster, hMirrored⟩ := hListed
    obtain ⟨cell, hCell, -⟩ := ownCells_family.owned d hd roster hMirrored
    have hOn : (withPrime p s).isOn d why = s.isOn d why := by
      rw [Options.isOn, Options.isOn, withPrime, hCell.get_mapHost]
    rw [hOn]
    split
    · exact refreshFor_withPrime p hWithin d
    · rfl
  · have hOut : d.inShellopts = false ∧ d.inBashopts = false := by
      refine ⟨Bool.eq_false_iff.mpr fun hIn => hListed ⟨.shellopts, ?_⟩,
        Bool.eq_false_iff.mpr fun hIn => hListed ⟨.bashopts, ?_⟩⟩
      · rw [Roster.mirrors_shellopts, hIn]
      · rw [Roster.mirrors_bashopts, hIn]
    have hNone : ∀ t : Options (Host Unit), t.refreshFor d = t := fun t => by
      rw [Options.refreshFor, hOut.1, hOut.2]
      rfl
    rw [hNone, hNone, ite_self, ite_self]

theorem remove_withPrime (hWithin : s.registry.Within Family) (hd : d ∈ Family) :
    (withPrime p s).remove d = ((s.remove d).1, withPrime p (s.remove d).2) := by
  rw [Options.remove, Options.remove]
  change (if s.registry.holds d then _ else _) = _
  split
  · exact congrArg (Outcome.ok, ·)
      (refreshFor_withPrime_if_on (s := s.takeOut d) p (hWithin.remove d) hd .unload)
  · rfl

theorem applyPolicy_withPrime (hWithin : s.registry.Within Family) (hFree : d.fixedAfterStart = false) (why : Access)
    (value : Int32) :
    (withPrime p s).applyPolicy d why value =
      ((s.applyPolicy d why value).1, withPrime p (s.applyPolicy d why value).2) := by
  rw [Options.applyPolicy, Options.applyPolicy, hFree, Bool.false_and, Bool.false_and, if_neg Bool.false_ne_true,
    if_neg Bool.false_ne_true]
  split
  · rfl
  · split
    · rfl
    · split
      · rfl
      · rename_i cell hCell
        have hRefreshed := refreshFor_withPrime (s := s.writeCell cell value) p hWithin d
        change (Outcome.ok, if s.storage.read cell = value then _ else _) = _
        split
        · rfl
        · exact congrArg (Outcome.ok, ·) hRefreshed

theorem set_withPrime (hs : Sound s) (hd : d ∈ Family) (why : Access) (value : Int32) :
    Update.set d why value (withPrime p s) =
      (Update.set d why value s).map fun result => (result.1, withPrime p result.2) := by
  by_cases hSame : d = privileged
  · subst hSame
    have hNesting : 0 < (withPrime p s).nesting := hs.nesting
    rw [set_privileged why value hs.nesting, set_privileged why value hNesting]
    change (if s.storage.read 11 = value then _ else _) = _
    split
    · rfl
    · split
      · rfl
      · have hRefreshed := refreshFor_withPrime (s := s.writeCell 11 value) p hs.within privileged
        exact congrArg (fun after => some (Outcome.ok, after)) hRefreshed
  · have hSetter := setter?_eq_none hd hSame
    have hFixed : ∀ d ∈ family, d.fixedAfterStart = true → d.setter?.isSome := by decide
    have hFree : d.fixedAfterStart = false := Bool.eq_false_iff.mpr fun hTrue => by
      have hSome := hFixed d hd hTrue
      rw [hSetter] at hSome
      cases hSome
    rw [Update.set_of_setter?_eq_none hSetter, Update.set_of_setter?_eq_none hSetter,
      applyPolicy_withPrime p hs.within hFree]
    rfl

/-! ## Changes of the options -/

theorem commutesFrom_set (hd : d ∈ Family) (why : Access) (value : Int32) :
    CommutesFrom Sound (withPrime p) (Update.set d why value) := by
  intro s hs
  obtain ⟨outcome, after, hRun, hKept⟩ := setInvariant_sound.set d hd why value s hs
  refine ⟨outcome, after, hRun, ?_, hKept⟩
  rw [set_withPrime p hs hd, hRun]
  rfl

theorem commutesFrom_setNamed (name : String) (why : Access) (value : Int32) :
    CommutesFrom Sound (withPrime p) (Update.setNamed name why value) := by
  refine .get_bind (fun _ _ => rfl) fun s hs => ?_
  split
  · rename_i d hFound
    exact commutesFrom_set p (hs.within.named hFound) why value
  · exact .pure _

theorem commutesFrom_removeAll : CommutesFrom Sound (withPrime p) (Extension.removeAll primeOptions) := by
  have hEach : ∀ rest ⊆ primeOptions, ∀ s, Sound s →
      rest.foldl (fun s d => (s.remove d).2) (withPrime p s) =
        withPrime p (rest.foldl (fun s d => (s.remove d).2) s) ∧ Sound (rest.foldl (fun s d => (s.remove d).2) s) := by
    intro rest hRest
    induction rest with
    | nil => exact fun s hs => ⟨rfl, hs⟩
    | cons d rest ih =>
      intro s hs
      obtain ⟨hd, hRest⟩ := List.cons_subset.mp hRest
      rw [List.foldl_cons, List.foldl_cons, remove_withPrime p hs.within (mem_family_of_prime hd)]
      exact ih hRest _ (hs.remove hd)
  exact .modify (fun s hs => (hEach _ (List.Subset.refl _) s hs).1) fun s hs => (hEach _ (List.Subset.refl _) s hs).2

theorem commutesFrom_leave : CommutesFrom Sound (withPrime p) primeExtension.leave := by
  refine .bind (.modify (fun _ _ => rfl) fun s hs => hs.congr rfl rfl) fun _ => ?_
  refine .bind (.forM fun d hd => ?_) fun _ => commutesFrom_removeAll p
  split
  · exact .bind (commutesFrom_set p (mem_family_of_prime hd) .unload _) fun _ => .pure _
  · exact .pure _

/-- What passes by the state of the extension leaves it alone. -/
theorem prime_eq_of_commutesFrom {α : Type} {m : Update (Host Unit) α}
    (h : ∀ p, CommutesFrom Sound (withPrime p) m) {s after : Options (Host Unit)} (hs : Sound s) {answer : α}
    (hRun : m s = some (answer, after)) : after.host.prime = s.host.prime := by
  obtain ⟨other, final, hFirst, hSame, -⟩ := h s.host.prime s hs
  have hSelf : withPrime s.host.prime s = s := rfl
  rw [hSelf, hRun] at hSame
  cases hSame
  rfl

end Shell

end OptionShell
