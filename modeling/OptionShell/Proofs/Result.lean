/-!
# Results of stateful computations

A change of the options is a function from a state to a result, if it has one. `Ensures` says that there is a result
and what it is like; `Allows` says what a result is like if there is one. Both are built up along the computation.
-/
namespace OptionShell

variable {S α β : Type} {m : StateT S Option α} {f : α → StateT S Option β} {s : S} {Q : α → S → Prop}
  {R : β → S → Prop}

/-- The computation has a result, and `Q` holds of it. -/
def Ensures (m : StateT S Option α) (s : S) (Q : α → S → Prop) : Prop :=
  ∃ answer after, m s = some (answer, after) ∧ Q answer after

/-- `Q` holds of the result of the computation, if it has one. -/
def Allows (m : StateT S Option α) (s : S) (Q : α → S → Prop) : Prop :=
  ∀ answer after, m s = some (answer, after) → Q answer after

namespace Ensures

theorem allows (h : Ensures m s Q) : Allows m s Q := by
  obtain ⟨answer, after, hRun, hQ⟩ := h
  intro answer' after' hRun'
  rw [hRun] at hRun'
  cases hRun'
  exact hQ

theorem mono {Q' : α → S → Prop} (h : Ensures m s Q) (hQ : ∀ answer after, Q answer after → Q' answer after) :
    Ensures m s Q' := by
  obtain ⟨answer, after, hRun, hAnswer⟩ := h
  exact ⟨answer, after, hRun, hQ answer after hAnswer⟩

theorem and {Q' : α → S → Prop} (h : Ensures m s Q) (h' : Ensures m s Q') :
    Ensures m s fun answer after => Q answer after ∧ Q' answer after := by
  obtain ⟨answer, after, hRun, hQ⟩ := h
  exact ⟨answer, after, hRun, hQ, h'.allows answer after hRun⟩

theorem pure {answer : α} (h : Q answer s) : Ensures (pure answer) s Q := ⟨answer, s, rfl, h⟩

theorem bind (h : Ensures m s Q) (hNext : ∀ answer after, Q answer after → Ensures (f answer) after R) :
    Ensures (m >>= f) s R := by
  obtain ⟨answer, after, hRun, hQ⟩ := h
  obtain ⟨last, final, hRun', hR⟩ := hNext answer after hQ
  refine ⟨last, final, ?_, hR⟩
  change (m s).bind (fun result => f result.1 result.2) = _
  rw [hRun]
  exact hRun'

theorem get_bind {f : S → StateT S Option β} (h : Ensures (f s) s R) : Ensures (get >>= f) s R :=
  bind (Q := fun answer after => answer = s ∧ after = s) ⟨s, s, rfl, rfl, rfl⟩
    (by rintro _ _ ⟨rfl, rfl⟩; exact h)

theorem modifyGet {g : S → α × S} (h : Q (g s).1 (g s).2) : Ensures (modifyGet g) s Q := ⟨_, _, rfl, h⟩

theorem modify {g : S → S} {Q : PUnit → S → Prop} (h : Q ⟨⟩ (g s)) : Ensures (modify g) s Q := ⟨_, _, rfl, h⟩

theorem foldlM {γ : Type} {I : β → S → Prop} {g : β → γ → StateT S Option β} {items : List γ}
    (hStep : ∀ item ∈ items, ∀ acc s, I acc s → Ensures (g acc item) s I) {acc : β} (h : I acc s) :
    Ensures (items.foldlM g acc) s I := by
  induction items generalizing acc s with
  | nil => exact pure h
  | cons item rest ih =>
    rw [List.foldlM_cons]
    refine bind (hStep item List.mem_cons_self acc s h) fun acc' after hAfter => ?_
    exact ih (fun item hItem => hStep item (List.mem_cons_of_mem _ hItem)) hAfter

theorem forEach {γ : Type} {I : S → Prop} {g : γ → StateT S Option PUnit} {items : List γ}
    (hStep : ∀ item ∈ items, ∀ s, I s → Ensures (g item) s fun _ after => I after) (h : I s) :
    Ensures (items.forM g) s fun _ after => I after := by
  induction items generalizing s with
  | nil => exact pure h
  | cons item rest ih =>
    refine bind (hStep item List.mem_cons_self s h) fun _ _ hAfter => ?_
    exact ih (fun item hItem => hStep item (List.mem_cons_of_mem _ hItem)) hAfter

/-- The invariants of this rule and the next ones speak of the items that are done. -/
theorem forM {γ : Type} {I : List γ → S → Prop} {g : γ → StateT S Option PUnit} {items : List γ} (done : List γ)
    (hStep : ∀ done item s, I done s → Ensures (g item) s fun _ after => I (done ++ [item]) after) (h : I done s) :
    Ensures (items.forM g) s fun _ after => I (done ++ items) after := by
  induction items generalizing done s with
  | nil =>
    rw [List.append_nil]
    exact pure h
  | cons item rest ih =>
    rw [List.append_cons]
    exact bind (hStep done item s h) fun _ _ hAfter => ih _ hAfter

/-- What holds of every answer of a step holds of the answers that are kept. -/
theorem filterMapM_answers {γ : Type} {P : β → Prop} {I : List γ → S → Prop} {g : γ → StateT S Option (Option β)}
    {items : List γ} (done : List γ)
    (hStep : ∀ done item s, I done s → Ensures (g item) s fun answer after =>
      (∀ kept, answer = some kept → P kept) ∧ I (done ++ [item]) after) (h : I done s) :
    Ensures (items.filterMapM g) s fun answers after => (∀ kept ∈ answers, P kept) ∧ I (done ++ items) after := by
  induction items generalizing done s with
  | nil =>
    rw [List.append_nil]
    exact pure ⟨fun _ hKept => (nomatch hKept), h⟩
  | cons item rest ih =>
    rw [List.filterMapM_cons, List.append_cons]
    refine bind (hStep done item s h) fun answer after hAfter => ?_
    cases answer with
    | none => exact ih _ hAfter.2
    | some answer =>
      refine bind (ih _ hAfter.2) fun answers final hFinal => pure ⟨?_, hFinal.2⟩
      exact List.forall_mem_cons.mpr ⟨hAfter.1 answer rfl, hFinal.1⟩

theorem filterMapM {γ : Type} {I : List γ → S → Prop} {g : γ → StateT S Option (Option β)} {items : List γ}
    (done : List γ)
    (hStep : ∀ done item s, I done s → Ensures (g item) s fun _ after => I (done ++ [item]) after) (h : I done s) :
    Ensures (items.filterMapM g) s fun _ after => I (done ++ items) after :=
  (filterMapM_answers (P := fun _ => True) done (fun done item s hs =>
    (hStep done item s hs).mono fun _ _ hAfter => ⟨fun _ _ => trivial, hAfter⟩) h).mono fun _ _ hAfter => hAfter.2

/-- The answers are known if that of each step is. -/
theorem filterMapM_eq {γ : Type} {p : γ → Option β} {I : List γ → S → Prop} {g : γ → StateT S Option (Option β)}
    {items : List γ} (done : List γ)
    (hStep : ∀ done item s, I done s → Ensures (g item) s fun answer after => answer = p item ∧ I (done ++ [item]) after)
    (h : I done s) :
    Ensures (items.filterMapM g) s fun answers after => answers = items.filterMap p ∧ I (done ++ items) after := by
  induction items generalizing done s with
  | nil =>
    rw [List.append_nil]
    exact pure ⟨rfl, h⟩
  | cons item rest ih =>
    rw [List.filterMapM_cons, List.append_cons]
    refine bind (hStep done item s h) ?_
    rintro _ after ⟨rfl, hAfter⟩
    cases hItem : p item with
    | none =>
      rw [List.filterMap_cons_none hItem]
      exact ih _ hAfter
    | some answer =>
      rw [List.filterMap_cons_some hItem]
      refine bind (ih _ hAfter) ?_
      rintro _ final ⟨rfl, hFinal⟩
      exact pure ⟨rfl, hFinal⟩

/-! ## Computations that can fail -/

section Except

variable {ε : Type} {m : ExceptT ε (StateT S Option) α} {f : α → ExceptT ε (StateT S Option) β}
  {Q : Except ε α → S → Prop} {R : Except ε β → S → Prop}

theorem andThen (h : Ensures m.run s Q) (hNext : ∀ answer mid, Q (.ok answer) mid → Ensures (f answer).run mid R)
    (hStop : ∀ error mid, Q (.error error) mid → R (.error error) mid) : Ensures (m >>= f).run s R := by
  refine bind (m := m.run) h fun result mid hMid => ?_
  cases result with
  | ok answer => exact hNext answer mid hMid
  | error error => exact ⟨.error error, mid, rfl, hStop error mid hMid⟩

theorem tryCatch {handler : ε → ExceptT ε (StateT S Option) α} {R : Except ε α → S → Prop} (h : Ensures m.run s Q)
    (hOk : ∀ answer mid, Q (.ok answer) mid → R (.ok answer) mid)
    (hHandler : ∀ error mid, Q (.error error) mid → Ensures (handler error).run mid R) :
    Ensures (tryCatch m handler).run s R := by
  obtain ⟨result, mid, hRun, hMid⟩ := h
  cases result with
  | ok answer =>
    refine ⟨.ok answer, mid, ?_, hOk answer mid hMid⟩
    change (m.run s).bind _ = _
    rw [hRun]
    rfl
  | error error =>
    obtain ⟨last, final, hHandled, hR⟩ := hHandler error mid hMid
    refine ⟨last, final, ?_, hR⟩
    change (m.run s).bind _ = _
    rw [hRun]
    exact hHandled

end Except

end Ensures

/-! ## Invariants -/

/-- From each state with the property the computation has a result, and the state after it has the property. -/
def Finishes (I : S → Prop) (m : StateT S Option α) : Prop := ∀ s, I s → Ensures m s fun _ after => I after

namespace Finishes

variable {I : S → Prop}

theorem pure (answer : α) : Finishes I (pure answer : StateT S Option α) := fun _ hs => .pure hs

theorem bind (h : Finishes I m) (hNext : ∀ answer, Finishes I (f answer)) : Finishes I (m >>= f) :=
  fun s hs => (h s hs).bind fun answer after hAfter => hNext answer after hAfter

theorem get_bind {f : S → StateT S Option β} (h : ∀ s, I s → Finishes I (f s)) : Finishes I (get >>= f) :=
  fun s hs => .get_bind (h s hs s hs)

theorem forM {γ : Type} {g : γ → StateT S Option PUnit} {items : List γ} (h : ∀ item ∈ items, Finishes I (g item)) :
    Finishes I (items.forM g) :=
  fun _ hs => .forEach (fun item hItem s hs => h item hItem s hs) hs

section Except

variable {ε : Type} {m : ExceptT ε (StateT S Option) α} {f : α → ExceptT ε (StateT S Option) β}

theorem ok (answer : α) : Finishes I (Pure.pure answer : ExceptT ε (StateT S Option) α).run := pure (Except.ok answer)

theorem throw (error : ε) : Finishes I (throw error : ExceptT ε (StateT S Option) α).run := pure (Except.error error)

theorem andThen (h : Finishes I m.run) (hNext : ∀ answer, Finishes I (f answer).run) : Finishes I (m >>= f).run :=
  fun s hs => (h s hs).andThen (fun answer mid hMid => hNext answer mid hMid) fun _ _ hMid => hMid

theorem get_andThen {f : S → ExceptT ε (StateT S Option) β} (h : ∀ s, I s → Finishes I (f s).run) :
    Finishes I (get >>= f).run := get_bind h

theorem alter {g : S → S} (h : ∀ s, I s → I (g s)) :
    Finishes I (modify g : ExceptT ε (StateT S Option) PUnit).run :=
  fun s hs => ⟨_, _, rfl, h s hs⟩

theorem tryCatch {handler : ε → ExceptT ε (StateT S Option) α} (h : Finishes I m.run)
    (hHandler : ∀ error, Finishes I (handler error).run) : Finishes I (tryCatch m handler).run :=
  fun s hs => (h s hs).tryCatch (fun _ _ hMid => hMid) fun error mid hMid => hHandler error mid hMid

end Except

end Finishes

/-! ## Two results side by side -/

section Related

variable {γ δ : Type} {T : α → β → Prop} {U : γ → δ → Prop} {x : Option α} {y : Option β}

theorem rel_mono {T' : α → β → Prop} (h : Option.Rel T x y) (hWeaker : ∀ a b, T a b → T' a b) : Option.Rel T' x y := by
  cases h with
  | none => exact .none
  | some hRel => exact .some (hWeaker _ _ hRel)

theorem rel_attach (h : Option.Rel T x y) : Option.Rel (fun a b => T a b ∧ x = some a ∧ y = some b) x y := by
  cases h with
  | none => exact .none
  | some hRel => exact .some ⟨hRel, rfl, rfl⟩

theorem rel_bind {f : α → Option γ} {g : β → Option δ} (h : Option.Rel T x y)
    (hNext : ∀ a b, T a b → Option.Rel U (f a) (g b)) : Option.Rel U (x.bind f) (y.bind g) := by
  cases h with
  | none => exact .none
  | some hRel => exact hNext _ _ hRel

theorem rel_map_iff {f : α → γ} {g : β → δ} :
    Option.Rel U (x.map f) (y.map g) ↔ Option.Rel (fun a b => U (f a) (g b)) x y := by
  cases x <;> cases y <;> simp

end Related

end OptionShell
