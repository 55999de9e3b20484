import OptionShell.Proofs.Result

/-!
# Computations that a change of the state passes by

A computation commutes with a change of the state if it makes no difference which of them comes first: the answer is
the same, and so is the state in the end. This is built up along the computation. A computation that reads the state
has to read parts of it which the change leaves alone.
-/
namespace OptionShell

variable {S ε α β : Type} {g : S → S}

/-- The computation gives the same answer after the change, and the changed state. -/
def Commutes (g : S → S) (m : StateT S Option α) : Prop :=
  ∀ s, m (g s) = (m s).map fun result => (result.1, g result.2)

namespace Commutes

section State

variable {m : StateT S Option α} {f : α → StateT S Option β}

theorem pure (answer : α) : Commutes g (pure answer : StateT S Option α) := fun _ => rfl

theorem none : Commutes g (fun _ => Option.none : StateT S Option α) := fun _ => rfl

theorem bind (h : Commutes g m) (hNext : ∀ answer, Commutes g (f answer)) : Commutes g (m >>= f) := by
  intro s
  change (m (g s)).bind (fun result => f result.1 result.2) = ((m s).bind fun result => f result.1 result.2).map _
  rw [h s]
  cases m s with
  | none => rfl
  | some result => exact hNext result.1 result.2

theorem get_bind {f : S → StateT S Option β} (hRead : ∀ s, f (g s) = f s) (hNext : ∀ s, Commutes g (f s)) :
    Commutes g (get >>= f) := by
  intro s
  change f (g s) (g s) = _
  rw [hRead s]
  exact hNext s s

end State

/-! ## Computations that can fail -/

section Except

variable {m : ExceptT ε (StateT S Option) α} {f : α → ExceptT ε (StateT S Option) β}

theorem ok (answer : α) : Commutes g (Pure.pure answer : ExceptT ε (StateT S Option) α).run := pure (Except.ok answer)

theorem throw (error : ε) : Commutes g (throw error : ExceptT ε (StateT S Option) α).run := pure (Except.error error)

theorem ofExcept (result : Except ε α) : Commutes g (ofExcept result : ExceptT ε (StateT S Option) α).run := by
  cases result with
  | ok answer => exact ok answer
  | error error => exact throw error

theorem andThen (h : Commutes g m.run) (hNext : ∀ answer, Commutes g (f answer).run) : Commutes g (m >>= f).run := by
  refine bind (m := m.run) h fun result => ?_
  cases result with
  | ok answer => exact hNext answer
  | error error => exact pure (Except.error error)

theorem stop (error : ε) (f : α → ExceptT ε (StateT S Option) β) :
    Commutes g ((MonadExcept.throw error : ExceptT ε (StateT S Option) α) >>= f).run := fun _ => rfl

theorem get_andThen {f : S → ExceptT ε (StateT S Option) β} (hRead : ∀ s, f (g s) = f s)
    (hNext : ∀ s, Commutes g (f s).run) : Commutes g (get >>= f).run :=
  get_bind hRead hNext

theorem alter {h : S → S} (hChange : ∀ s, h (g s) = g (h s)) :
    Commutes g (modify h : ExceptT ε (StateT S Option) PUnit).run := fun s => by
  change some (Except.ok PUnit.unit, h (g s)) = _
  rw [hChange s]
  rfl

theorem tryCatch {handler : ε → ExceptT ε (StateT S Option) α} (h : Commutes g m.run)
    (hHandler : ∀ error, Commutes g (handler error).run) : Commutes g (tryCatch m handler).run := by
  intro s
  change (m.run (g s)).bind _ = ((m.run s).bind _).map _
  rw [h s]
  cases m.run s with
  | none => rfl
  | some result =>
    obtain ⟨error | answer, mid⟩ := result
    · exact hHandler error mid
    · rfl

end Except

end Commutes

/-! ## From some states -/

/-- From a state with the property the computation has a result, and the same one after the change. It keeps the
property. -/
def CommutesFrom (I : S → Prop) (g : S → S) (m : StateT S Option α) : Prop :=
  ∀ s, I s → Ensures m s fun answer after => m (g s) = some (answer, g after) ∧ I after

namespace CommutesFrom

variable {I : S → Prop} {m : StateT S Option α} {f : α → StateT S Option β}

theorem pure (answer : α) : CommutesFrom I g (pure answer : StateT S Option α) :=
  fun s hs => ⟨answer, s, rfl, rfl, hs⟩

theorem bind (h : CommutesFrom I g m) (hNext : ∀ answer, CommutesFrom I g (f answer)) :
    CommutesFrom I g (m >>= f) := by
  intro s hs
  obtain ⟨answer, mid, hRun, hSame, hMid⟩ := h s hs
  obtain ⟨last, after, hLast, hSameLast, hAfter⟩ := hNext answer mid hMid
  refine ⟨last, after, ?_, ?_, hAfter⟩
  · change (m s).bind (fun result => f result.1 result.2) = _
    rw [hRun]
    exact hLast
  · change (m (g s)).bind (fun result => f result.1 result.2) = _
    rw [hSame]
    exact hSameLast

theorem get_bind {f : S → StateT S Option β} (hRead : ∀ s, I s → f (g s) = f s)
    (hNext : ∀ s, I s → CommutesFrom I g (f s)) : CommutesFrom I g (get >>= f) := by
  intro s hs
  obtain ⟨answer, after, hRun, hSame, hKept⟩ := hNext s hs s hs
  refine ⟨answer, after, hRun, ?_, hKept⟩
  change f (g s) (g s) = _
  rw [hRead s hs]
  exact hSame

theorem modify {h : S → S} (hChange : ∀ s, I s → h (g s) = g (h s)) (hKept : ∀ s, I s → I (h s)) :
    CommutesFrom I g (modify h : StateT S Option PUnit) :=
  fun s hs => ⟨⟨⟩, h s, rfl, congrArg (fun after => some (PUnit.unit, after)) (hChange s hs), hKept s hs⟩

theorem forM {items : List β} {f : β → StateT S Option PUnit} (h : ∀ item ∈ items, CommutesFrom I g (f item)) :
    CommutesFrom I g (items.forM f) := by
  induction items with
  | nil => exact pure PUnit.unit
  | cons item rest ih =>
    obtain ⟨hFirst, hRest⟩ := List.forall_mem_cons.mp h
    exact bind hFirst fun _ => ih hRest

end CommutesFrom

end OptionShell
