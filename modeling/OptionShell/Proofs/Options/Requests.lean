import OptionShell.Proofs.Leads
import OptionShell.Proofs.Options.Operation

/-!
# What requests lead to

A custom setter can ask for any change of the options, and setting an option can run a setter in turn. A relation that
setting options and the steps around it lead along is one that every request leads along, and every script.
-/
namespace OptionShell

variable {σ α : Type}

/-- Whether the request sets the option or returns it to its initial value, if its keys and its handle lead to it. -/
def Request.ActsOn (d : Definition σ) : Request → Prop
  | .set handle _ _ => handle = d.id
  | setNamed name _ _ => d.name? = some name
  | setLettered letter _ _ | turnFlag letter _ => d.letter? = some letter
  | reinstateFlags saved => ∃ flag ∈ saved.values, d.letter? = some flag.1
  | resetAll => d.initial?.isSome
  | restartAll => d.initial?.isSome ∧ d.keptOnRestart = false
  | .inherit roster why _ => roster.listing.hides d = false ∧ why.hides d = false
  | openRosters inheriting =>
    inheriting = true ∧ ∃ roster : Roster, roster.listing.hides d = false ∧ roster.access.hides d = false
  | _ => False

/-- Keys and handles lead to definitions of the family only, and the registry is consistent. -/
structure Options.WellKept (defs : Set (Definition σ)) (s : Options σ) : Prop where
  registry : s.registry.WellKept defs
  held : ∀ handle d, s.held.find? handle = some d → d ∈ defs

theorem Options.WellKept.of_definition? {defs : Set (Definition σ)} {s : Options σ} (h : s.WellKept defs)
    {handle : Handle} {d : Definition σ} (hFound : s.definition? handle = some d) : d ∈ defs ∧ d.id = handle := by
  obtain hHeld | ⟨-, hLive⟩ := Option.or_eq_some_iff.mp hFound
  · exact ⟨h.held handle d hHeld, s.held.id_eq hHeld⟩
  · exact ⟨h.registry.within.live d (List.mem_of_find?_eq_some hLive), by simpa using List.find?_some hLive⟩

/-- A relation that the steps of requests lead along, setting options and writing cells apart. -/
structure RequestRules (defs : Set (Definition σ)) (R : Options σ → Options σ → Prop) : Prop where
  /-- What happens to options that are not well kept does not matter. -/
  guarded : ∀ {s after}, (s.WellKept defs → R s after) → R s after
  mapHost : ∀ f s, R s (s.mapHost f)
  attached : ∀ attached s, R s { s with attached }
  readLetters : ∀ s, R s s.readLetters.2
  add : ∀ d ∈ defs, ∀ s, R s (s.add d).2
  takeOut : ∀ d s, R s (s.takeOut d)

namespace RequestRules

variable {defs : Set (Definition σ)} {R : Options σ → Options σ → Prop} {s : Options σ}

theorem leads (h : RequestRules defs R) {m : Update σ α} (hLeads : s.WellKept defs → Leads R m s) : Leads R m s :=
  fun answer after hRun => h.guarded fun hs => hLeads hs answer after hRun

theorem noted [Std.Refl R] (h : RequestRules defs R) (d : Definition σ) (why : Access) (s : Options σ) :
    R s (s.noted d why) := by
  rw [Options.noted]
  split
  · rename_i getter _
    exact h.mapHost (getter.note why s.storage) s
  · exact Std.Refl.refl s

section Refreshing

variable [HostVariables σ]

theorem refresh (h : RequestRules defs R) (roster : Roster) (s : Options σ) : R s (s.refresh roster) := by
  obtain ⟨f, hf⟩ := Options.refresh_eq_mapHost roster s
  exact hf ▸ h.mapHost f s

theorem refreshFor (h : RequestRules defs R) (d : Definition σ) (s : Options σ) : R s (s.refreshFor d) := by
  obtain ⟨f, hf⟩ := Options.refreshFor_eq_mapHost d s
  exact hf ▸ h.mapHost f s

theorem refreshAll (h : RequestRules defs R) (s : Options σ) : R s s.refreshAll := by
  obtain ⟨f, hf⟩ := Options.refreshAll_eq_mapHost s
  exact hf ▸ h.mapHost f s

theorem remove [IsTrans (Options σ) R] (h : RequestRules defs R) (d : Definition σ) (s : Options σ) :
    R s (s.remove d).2 := by
  obtain ⟨f, hf⟩ := Options.remove_eq_mapHost d s
  rw [hf]
  split
  · exact IsTrans.trans _ _ _ (h.takeOut d s) (h.mapHost f _)
  · exact h.mapHost f s

end Refreshing

/-! ## Setting options -/

variable {set : Assign σ} [Std.Refl R]

theorem named (h : RequestRules defs R) {name : String} {why : Access} {value : Int32}
    (hSet : ∀ e ∈ defs, e.name? = some name → ∀ s, Leads R (set e why value) s) (s : Options σ) :
    Leads R (set.named name why value) s := by
  refine h.leads fun hs => .get_bind ?_
  split
  · rename_i e hFound
    have hName := ((Registry.findName?_eq_some_iff _ name).mp hFound).2
    exact hSet e (hs.registry.within.named hFound) hName s
  · exact .pure _

theorem lettered (h : RequestRules defs R) {letter : Char} {why : Access} {value : Int32}
    (hSet : ∀ e ∈ defs, e.letter? = some letter → ∀ s, Leads R (set e why value) s) (s : Options σ) :
    Leads R (set.lettered letter why value) s := by
  refine h.leads fun hs => .get_bind ?_
  split
  · rename_i e hFound
    have hLetter := ((hs.registry.consistent.lettered letter e).mp hFound).2
    exact hSet e (hs.registry.within.lettered letter e hFound) hLetter s
  · exact .pure _

variable [IsTrans (Options σ) R]

theorem turnFlag (h : RequestRules defs R) {letter : Char}
    (hSet : ∀ e ∈ defs, e.letter? = some letter → ∀ value s, Leads R (set e .flag value) s) (sign : Char)
    (s : Options σ) : Leads R (set.turnFlag letter sign) s := by
  rw [Assign.turnFlag]
  split
  · refine h.leads fun hs => .get_bind ?_
    split
    · exact .pure _
    · rename_i e hFound
      have hLetter := ((hs.registry.consistent.lettered letter e).mp hFound).2
      have hLeads := hSet e (hs.registry.within.lettered letter e hFound) hLetter
      exact .bind (hLeads _ s) fun _ _ _ => .pure _
  · exact .pure _

theorem reinstateFlags (h : RequestRules defs R) {saved : SavedFlags}
    (hSet : ∀ flag ∈ saved.values, ∀ e ∈ defs, e.letter? = some flag.1 → ∀ s, Leads R (set e .scopeEnd flag.2) s)
    (s : Options σ) : Leads R (set.reinstateFlags saved) s := by
  refine .foldlM (fun flag hFlag count s => .bind ?_ fun _ _ _ => .pure _) 0 s
  refine h.leads fun hs => .get_bind ?_
  split
  · exact .pure _
  · rename_i e hFound
    have hLetter := ((hs.registry.consistent.lettered flag.1 e).mp hFound).2
    have hLeads := hSet flag hFlag e (hs.registry.within.lettered flag.1 e hFound) hLetter
    split
    · exact .pure _
    · exact .bind (hLeads s) fun _ _ _ => .pure _

theorem toInitial {d : Definition σ} (hSet : d.initial?.isSome → ∀ value s, Leads R (set d .restart value) s)
    (hWrite : d.initial?.isSome → ∀ cell, d.cell? = some cell → ∀ value s, R s (s.writeCell cell value))
    (s : Options σ) : Leads R (set.toInitial d) s := by
  rw [Assign.toInitial]
  split
  · exact .pure _
  · rename_i initial hInitial
    have hSome : d.initial?.isSome := by rw [hInitial]; rfl
    split
    · exact .bind (hSet hSome initial s) fun _ _ _ => .pure _
    · split
      · exact .pure _
      · rename_i cell hCell
        exact .changeGet (hWrite hSome cell hCell initial s)

variable [HostVariables σ]

theorem allToInitial (h : RequestRules defs R) {skip : Definition σ → Bool}
    (hSet : ∀ e ∈ defs, skip e = false → e.initial?.isSome → ∀ value s, Leads R (set e .restart value) s)
    (hWrite : ∀ e ∈ defs, skip e = false → e.initial?.isSome → ∀ cell, e.cell? = some cell →
      ∀ value s, R s (s.writeCell cell value)) (s : Options σ) : Leads R (set.allToInitial skip) s := by
  refine h.leads fun hs => .get_bind (.bind (.foldlM (fun e he count s => ?_) 0 s) fun changed mid _ => ?_)
  · obtain ⟨hLive, hSkip⟩ := List.mem_filter.mp he
    have hMem := hs.registry.within.live e hLive
    have hKept : skip e = false := by simpa using hSkip
    exact .bind (toInitial (hSet e hMem hKept) (hWrite e hMem hKept) s) fun _ _ _ => .pure _
  · split
    · exact .bind (.change (h.refreshAll mid)) fun _ _ _ => .pure _
    · exact .pure _

theorem inherit (h : RequestRules defs R) {roster : Roster} {why : Access}
    (hSet : ∀ e ∈ defs, roster.listing.hides e = false → why.hides e = false → ∀ s, Leads R (set e why 1) s)
    (quiet : Bool) (s : Options σ) : Leads R (set.inherit roster why quiet) s := by
  refine .get_bind (.bind (.filterMapM (fun name _ s => ?_) s) fun _ _ _ => .pure _)
  refine h.leads fun hs => .get_bind ?_
  split
  · exact .pure _
  · rename_i e hFound
    split
    · exact .pure _
    · rename_i hShown
      obtain ⟨hListed, hVisible⟩ : roster.listing.hides e = false ∧ why.hides e = false := by simpa using hShown
      exact .bind (hSet e (hs.registry.within.named hFound) hListed hVisible s) fun _ _ _ => .pure _

theorem openRosters (h : RequestRules defs R) {inheriting : Bool}
    (hSet : inheriting = true → ∀ roster : Roster, ∀ e ∈ defs, roster.listing.hides e = false →
      roster.access.hides e = false → ∀ s, Leads R (set e roster.access 1) s) (s : Options σ) :
    Leads R (set.openRosters inheriting) s := by
  cases inheriting with
  | false => exact .change (h.refreshAll s)
  | true =>
    rw [Assign.openRosters_true]
    refine .bind (h.inherit (hSet rfl .shellopts) true s) fun _ mid _ => ?_
    refine .bind (h.inherit (hSet rfl .bashopts) true mid) fun _ last _ => ?_
    exact .change (h.refreshAll last)

/-! ## Requests and scripts -/

/-- A request needs no more than that the options on which it acts can be set. -/
theorem perform (h : RequestRules defs R) {request : Request}
    (hSet : ∀ e ∈ defs, request.ActsOn e → ∀ why value s, Leads R (set e why value) s)
    (hWrite : ∀ e ∈ defs, request.ActsOn e → ∀ cell, e.cell? = some cell → ∀ value s, R s (s.writeCell cell value))
    (s : Options σ) : Leads R (request.perform set) s := by
  cases request with
  | add handle =>
    refine h.leads fun hs => .get_bind ?_
    split
    · rename_i e hFound
      exact .changeGet (h.add e (hs.of_definition? hFound).1 s)
    · exact .pure _
  | remove handle =>
    apply Leads.get_bind
    split
    · exact .changeGet (h.remove _ s)
    · exact .pure _
  | removeNamed name =>
    apply Leads.get_bind
    split
    · exact .changeGet (h.remove _ s)
    · exact .pure _
  | set handle why value =>
    refine h.leads fun hs => .get_bind ?_
    split
    · rename_i e hFound
      obtain ⟨he, hId⟩ := hs.of_definition? hFound
      exact hSet e he hId.symm why value s
    · exact .pure _
  | setNamed name why value => exact h.named (fun e he hName s => hSet e he hName why value s) s
  | setLettered letter why value => exact h.lettered (fun e he hLetter s => hSet e he hLetter why value s) s
  | turnFlag letter sign => exact h.turnFlag (fun e he hLetter => hSet e he hLetter .flag) sign s
  | reinstateFlags saved =>
    exact h.reinstateFlags (fun flag hFlag e he hLetter s => hSet e he ⟨flag, hFlag, hLetter⟩ .scopeEnd flag.2 s) s
  | resetAll =>
    exact h.allToInitial (fun e he _ hInitial => hSet e he hInitial .restart)
      (fun e he _ hInitial => hWrite e he hInitial) s
  | restartAll =>
    exact h.allToInitial (fun e he hKept hInitial => hSet e he ⟨hInitial, hKept⟩ .restart)
      (fun e he hKept hInitial => hWrite e he ⟨hInitial, hKept⟩) s
  | inherit roster why quiet =>
    exact h.inherit (fun e he hListed hVisible s => hSet e he ⟨hListed, hVisible⟩ why 1 s) quiet s
  | openRosters inheriting =>
    exact h.openRosters (fun hOpen roster e he hListed hVisible s =>
      hSet e he ⟨hOpen, roster, hListed, hVisible⟩ roster.access 1 s) s
  | read handle why =>
    apply Leads.get_bind
    split
    · exact .changeGet (h.noted _ why s)
    · exact .pure _
  | letters => exact .changeGet (h.readLetters s)
  | flagString stateLetters => exact .changeGet (h.readLetters s)
  | saveFlags => exact .changeGet (h.readLetters s)
  | refresh roster => exact .change (h.refresh roster s)
  | attach => exact .change (h.attached true s)
  | detach => exact .change (h.attached false s)
  | handleNamed name => exact .get_bind (.pure _)
  | handleLettered letter => exact .get_bind (.pure _)
  | handles why => exact .get_bind (.pure _)
  | rosterText roster => exact .get_bind (.pure _)

end RequestRules

/-- The script writes these cells and makes these requests only, whatever it is answered. -/
def Script.Only (writes : CellId → Prop) (asks : Request → Prop) : Script σ α → Prop
  | .done _ => True
  | .readCell _ next => ∀ value, (next value).Only writes asks
  | .writeCell cell _ next => writes cell ∧ next.Only writes asks
  | .readHost next => ∀ host, (next host).Only writes asks
  | .changeHost _ next => next.Only writes asks
  | .ask request next => asks request ∧ ∀ answer, (next answer).Only writes asks

theorem Script.only_true (script : Script σ α) : script.Only (fun _ => True) fun _ => True := by
  induction script with
  | done answer => trivial
  | readCell cell next ih => exact ih
  | writeCell cell value next ih => exact ⟨trivial, ih⟩
  | readHost next ih => exact ih
  | changeHost change next ih => exact ih
  | ask request next ih => exact ⟨trivial, ih⟩

theorem RequestRules.run [HostVariables σ] {defs : Set (Definition σ)} {R : Options σ → Options σ → Prop}
    [Std.Refl R] [IsTrans (Options σ) R] (h : RequestRules defs R) {set : Assign σ} {writes : CellId → Prop}
    {asks : Request → Prop} (hWrite : ∀ cell, writes cell → ∀ value s, R s (s.writeCell cell value))
    (hAsk : ∀ request, asks request → ∀ s, Leads R (request.perform set) s) (script : Script σ α)
    (hOnly : script.Only writes asks) (s : Options σ) : Leads R (script.run set) s := by
  induction script generalizing s with
  | done answer => exact .pure answer
  | readCell cell next ih => exact .get_bind (ih _ (hOnly _) s)
  | writeCell cell value next ih =>
    exact .bind (.change (hWrite cell hOnly.1 value s)) fun _ mid _ => ih hOnly.2 mid
  | readHost next ih => exact .get_bind (ih _ (hOnly _) s)
  | changeHost change next ih => exact .bind (.change (h.mapHost change s)) fun _ mid _ => ih hOnly mid
  | ask request next ih => exact .bind (hAsk request hOnly.1 s) fun answer mid _ => ih answer (hOnly.2 answer) mid

/-- Setting an option leads along the relation if the policy does and setters do that make such calls one level down.
`sets` tells which calls count. -/
theorem RequestRules.setWithin [HostVariables σ] {defs : Set (Definition σ)} {R : Options σ → Options σ → Prop}
    [Std.Refl R] [IsTrans (Options σ) R] (h : RequestRules defs R) (sets : Definition σ → Access → Prop)
    (hPolicy : ∀ e why, sets e why → ∀ value s, R s (s.applyPolicy e why value).2)
    (hSetter : ∀ e why, sets e why → ∀ setter, e.setter? = some setter → ∀ set : Assign σ,
      (∀ e why, sets e why → ∀ value s, Leads R (set e why value) s) →
        ∀ value s, Leads R ((setter why value).run set) s)
    (depth : Nat) (e : Definition σ) (why : Access) (hSets : sets e why) (value : Int32) (s : Options σ) :
    Leads R (Update.setWithin depth e why value) s := by
  induction depth generalizing e why value s with
  | zero =>
    rw [Update.setWithin]
    split
    · exact .changeGet (hPolicy e why hSets value s)
    · exact .none rfl
  | succ depth ih =>
    rw [Update.setWithin]
    split
    · exact .changeGet (hPolicy e why hSets value s)
    · rename_i setter hOwn
      refine .bind (hSetter e why hSets setter hOwn _ ih value s) fun outcome mid _ => ?_
      split
      · exact .bind (.change (h.refreshFor e mid)) fun _ _ _ => .pure _
      · exact .pure _

/-- An operation needs no more than that options can be set in its contexts. -/
theorem RequestRules.operate [HostVariables σ] {defs : Set (Definition σ)} {R : Options σ → Options σ → Prop}
    [Std.Refl R] [IsTrans (Options σ) R] (h : RequestRules defs R) (op : Operation σ)
    (hAdd : ∀ e, op.added? = some e → e ∈ defs)
    (hSet : ∀ e, op.subject? = some e ∨ e ∈ defs → ∀ why ∈ op.contexts, ∀ value s, Leads R (Update.set e why value) s)
    (hWrite : op.resets = true → ∀ cell value s, R s (s.writeCell cell value)) (s : Options σ) : Leads R op.run s := by
  have hLive : ∀ e ∈ defs, ∀ why ∈ op.contexts, ∀ value s, Leads R (Update.set e why value) s :=
    fun e he => hSet e (.inr he)
  have hDone : ∀ {β : Type} {m : Update σ β}, Leads R m s → Leads R (do let _ ← m) s :=
    fun hLeads => .bind hLeads fun _ _ _ => .pure _
  cases op with
  | add e => exact hDone (.changeGet (h.add e (hAdd e rfl) s))
  | remove e => exact hDone (.changeGet (h.remove e s))
  | set e why value => exact hDone (hSet e (.inl rfl) why List.mem_cons_self value s)
  | setNamed name why value => exact hDone (h.named (fun e he _ => hLive e he why List.mem_cons_self value) s)
  | setLettered letter why value => exact hDone (h.lettered (fun e he _ => hLive e he why List.mem_cons_self value) s)
  | turnFlag letter sign => exact hDone (h.turnFlag (fun e he _ => hLive e he .flag List.mem_cons_self) sign s)
  | reinstateFlags saved =>
    exact hDone (h.reinstateFlags (fun flag _ e he _ => hLive e he .scopeEnd List.mem_cons_self flag.2) s)
  | resetAll =>
    exact hDone (h.allToInitial (fun e he _ _ => hLive e he .restart List.mem_cons_self)
      (fun _ _ _ _ cell _ => hWrite rfl cell) s)
  | restartAll =>
    exact hDone (h.allToInitial (fun e he _ _ => hLive e he .restart List.mem_cons_self)
      (fun _ _ _ _ cell _ => hWrite rfl cell) s)
  | inherit roster why quiet => exact hDone (h.inherit (fun e he _ _ => hLive e he why List.mem_cons_self 1) quiet s)
  | openRosters inheriting =>
    refine h.openRosters (fun hOpen roster e he _ _ => hLive e he roster.access ?_ 1) s
    subst hOpen
    exact List.mem_map_of_mem (by cases roster <;> decide)
  | refresh roster => exact .change (h.refresh roster s)

end OptionShell
