import Mathlib.Order.Defs.Unbundled

/-!
# What computations lead to

A computation leads along a relation if each of its finished runs relates the state before it to the state after it,
whether it ends in an answer or in an error. With a reflexive and transitive relation this is built up along the
computation.
-/
namespace OptionShell

variable {S ε α β : Type} {R : S → S → Prop} {s : S}

/-- Every finished run from `s` ends in a state that `R` relates to `s`. -/
def Leads (R : S → S → Prop) (m : StateT S Option α) (s : S) : Prop :=
  ∀ answer after, m s = some (answer, after) → R s after

namespace Leads

theorem mono {R' : S → S → Prop} {m : StateT S Option α} (h : Leads R m s) (hWeaker : ∀ after, R s after → R' s after) :
    Leads R' m s :=
  fun answer after hRun => hWeaker after (h answer after hRun)

section State

variable {m : StateT S Option α} {f : α → StateT S Option β}

theorem pure [Std.Refl R] (answer : α) : Leads R (pure answer) s := by
  intro _ _ hRun
  cases hRun
  exact Std.Refl.refl s

theorem none (h : m s = Option.none) : Leads R m s := by
  intro _ _ hRun
  rw [h] at hRun
  cases hRun

theorem bind [IsTrans S R] (h : Leads R m s) (hNext : ∀ answer mid, m s = some (answer, mid) → Leads R (f answer) mid) :
    Leads R (m >>= f) s := by
  intro last after hRun
  change (m s).bind (fun result => f result.1 result.2) = _ at hRun
  cases hFirst : m s with
  | none =>
    rw [hFirst] at hRun
    cases hRun
  | some result =>
    obtain ⟨answer, mid⟩ := result
    rw [hFirst] at hRun
    exact IsTrans.trans _ _ _ (h answer mid hFirst) (hNext answer mid hFirst last after hRun)

theorem get_bind {f : S → StateT S Option β} (h : Leads R (f s) s) : Leads R (get >>= f) s := h

theorem changeGet {g : S → α × S} (h : R s (g s).2) : Leads R (modifyGet g) s := by
  intro _ _ hRun
  rw [Option.some.inj hRun] at h
  exact h

theorem change {g : S → S} (h : R s (g s)) : Leads R (modify g) s := by
  intro _ _ hRun
  cases hRun
  exact h

theorem forM [Std.Refl R] [IsTrans S R] {items : List α} {f : α → StateT S Option PUnit}
    (h : ∀ item ∈ items, ∀ s, Leads R (f item) s) (s : S) : Leads R (items.forM f) s := by
  induction items generalizing s with
  | nil => exact pure PUnit.unit
  | cons item rest ih =>
    refine bind (h item List.mem_cons_self s) fun _ mid _ => ?_
    exact ih (fun item hItem => h item (List.mem_cons_of_mem _ hItem)) mid

theorem foldlM [Std.Refl R] [IsTrans S R] {items : List α} {f : β → α → StateT S Option β}
    (h : ∀ item ∈ items, ∀ acc s, Leads R (f acc item) s) (acc : β) (s : S) : Leads R (items.foldlM f acc) s := by
  induction items generalizing acc s with
  | nil => exact pure acc
  | cons item rest ih =>
    rw [List.foldlM_cons]
    refine bind (h item List.mem_cons_self acc s) fun next mid _ => ?_
    exact ih (fun item hItem => h item (List.mem_cons_of_mem _ hItem)) next mid

theorem filterMapM [Std.Refl R] [IsTrans S R] {items : List α} {f : α → StateT S Option (Option β)}
    (h : ∀ item ∈ items, ∀ s, Leads R (f item) s) (s : S) : Leads R (items.filterMapM f) s := by
  induction items generalizing s with
  | nil => exact pure []
  | cons item rest ih =>
    have hRest := fun s => ih (fun item hItem => h item (List.mem_cons_of_mem _ hItem)) s
    rw [List.filterMapM_cons]
    refine bind (h item List.mem_cons_self s) fun answer mid _ => ?_
    cases answer with
    | none => exact hRest mid
    | some answer => exact bind (hRest mid) fun _ _ _ => pure _

end State

/-! ## Computations that can fail -/

section Except

variable {m : ExceptT ε (StateT S Option) α} {f : α → ExceptT ε (StateT S Option) β}

theorem ok [Std.Refl R] (answer : α) : Leads R (Pure.pure answer : ExceptT ε (StateT S Option) α).run s :=
  pure (Except.ok answer)

theorem throw [Std.Refl R] (error : ε) : Leads R (throw error : ExceptT ε (StateT S Option) α).run s :=
  pure (Except.error error)

theorem ofExcept [Std.Refl R] (result : Except ε α) :
    Leads R (ofExcept result : ExceptT ε (StateT S Option) α).run s := by
  cases result with
  | ok answer => exact ok answer
  | error error => exact throw error

theorem andThen [Std.Refl R] [IsTrans S R] (h : Leads R m.run s)
    (hNext : ∀ answer mid, m.run s = some (.ok answer, mid) → Leads R (f answer).run mid) :
    Leads R (m >>= f).run s := by
  refine bind (m := m.run) h fun result mid hRun => ?_
  cases result with
  | ok answer => exact hNext answer mid hRun
  | error error => exact pure (Except.error error)

theorem get_andThen {f : S → ExceptT ε (StateT S Option) β} (h : Leads R (f s).run s) :
    Leads R (get >>= f).run s := h

theorem alter {g : S → S} (h : R s (g s)) :
    Leads R (modify g : ExceptT ε (StateT S Option) PUnit).run s := by
  intro _ _ hRun
  cases hRun
  exact h

theorem tryCatch [Std.Refl R] [IsTrans S R] {handler : ε → ExceptT ε (StateT S Option) α} (h : Leads R m.run s)
    (hHandler : ∀ error mid, Leads R (handler error).run mid) : Leads R (tryCatch m handler).run s := by
  have hRun : (MonadExcept.tryCatch m handler).run = m.run >>= fun result =>
      match result with
      | .ok answer => Pure.pure (.ok answer)
      | .error error => (handler error).run := rfl
  rw [hRun]
  refine bind h fun result mid _ => ?_
  cases result with
  | ok answer => exact pure (Except.ok answer)
  | error error => exact hHandler error mid

theorem each [Std.Refl R] [IsTrans S R] {items : List α} {f : α → ExceptT ε (StateT S Option) PUnit}
    (h : ∀ item ∈ items, ∀ s, Leads R (f item).run s) (s : S) : Leads R (items.forM f).run s := by
  induction items generalizing s with
  | nil => exact ok PUnit.unit
  | cons item rest ih =>
    refine andThen (h item List.mem_cons_self s) fun _ mid _ => ?_
    exact ih (fun item hItem => h item (List.mem_cons_of_mem _ hItem)) mid

theorem collect [Std.Refl R] [IsTrans S R] {items : List α} {f : α → ExceptT ε (StateT S Option) β}
    (h : ∀ item ∈ items, ∀ s, Leads R (f item).run s) (s : S) : Leads R (items.mapM f).run s := by
  induction items generalizing s with
  | nil => exact ok []
  | cons item rest ih =>
    rw [List.mapM_cons]
    refine andThen (h item List.mem_cons_self s) fun _ mid _ => ?_
    refine andThen (ih (fun item hItem => h item (List.mem_cons_of_mem _ hItem)) mid) fun _ _ _ => ok _

end Except

end Leads

/-! ## Inversion -/

section Inversion

variable {m : ExceptT ε (StateT S Option) α} {f : α → ExceptT ε (StateT S Option) β} {after : S}

theorem exists_of_run_bind_ok {answer : β} (h : (m >>= f).run s = some (.ok answer, after)) :
    ∃ first mid, m.run s = some (.ok first, mid) ∧ (f first).run mid = some (.ok answer, after) := by
  change (m.run s).bind (fun result => ExceptT.bindCont f result.1 result.2) = _ at h
  cases hFirst : m.run s with
  | none =>
    rw [hFirst] at h
    cases h
  | some result =>
    obtain ⟨first, mid⟩ := result
    rw [hFirst] at h
    cases first with
    | ok first => exact ⟨first, mid, rfl, h⟩
    | error error => cases h

end Inversion

end OptionShell
