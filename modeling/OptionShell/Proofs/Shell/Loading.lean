import Mathlib.Logic.Relation
import OptionShell.Proofs.Interpreter.Effects
import OptionShell.Proofs.Shell.Sound

/-!
# Loading and unloading

Whatever becomes of it, loading or unloading the extension is a chain of small steps: options of the extension come,
go and are set back, and the state of the extension and the variables are edited. Standard options and their cells
take no part.
-/
namespace OptionShell

namespace Shell

/-- The extension of a shell. -/
def primeExtension : Extension Unit := Prime.extension StandardOptions.size primeCells

/-- One step of loading or unloading. -/
inductive LoadStep (s : Options (Host Unit)) : Options (Host Unit) → Prop where
  | add (d : Definition (Host Unit)) (hd : d ∈ primeOptions) : LoadStep s (s.add d).2
  | remove (d : Definition (Host Unit)) (hd : d ∈ primeOptions) : LoadStep s (s.remove d).2
  | setBack (d : Definition (Host Unit)) (hd : d ∈ primeOptions) (value : Int32) (outcome : Outcome)
      (after : Options (Host Unit)) (hRun : Update.set d .unload value s = some (outcome, after)) : LoadStep s after
  | prime (f : Prime.State → Prime.State) : LoadStep s (s.mapHost fun host => { host with prime := f host.prime })
  | vars (vars : Variables) (hEdit : VarEdit s.host.vars vars) : LoadStep s (s.mapHost fun host => { host with vars })

abbrev LoadSteps := Relation.ReflTransGen LoadStep

open Relation

variable {s after : Options (Host Unit)} {d : Definition (Host Unit)}

theorem leads_removeAll {defs : List (Definition (Host Unit))} (hDefs : ∀ d ∈ defs, d ∈ primeOptions) :
    Leads LoadSteps (Extension.removeAll defs) s := by
  apply Leads.change
  induction defs generalizing s with
  | nil => exact .refl
  | cons d rest ih =>
    obtain ⟨hd, hRest⟩ := List.forall_mem_cons.mp hDefs
    exact .head (.remove d hd) (ih hRest)

theorem leads_addAll (name : String) {added rest : List (Definition (Host Unit))}
    (hAdded : ∀ d ∈ added, d ∈ primeOptions) (hRest : ∀ d ∈ rest, d ∈ primeOptions) :
    Leads LoadSteps (Extension.addAll name added rest) s := by
  induction rest generalizing s added with
  | nil => exact .pure _
  | cons d rest ih =>
    obtain ⟨hd, hRest⟩ := List.forall_mem_cons.mp hRest
    refine .bind (.changeGet (.single (.add d hd))) fun outcome mid _ => ?_
    split
    · refine ih (fun e he => ?_) hRest
      obtain he | he := List.mem_append.mp he
      · exact hAdded e he
      · exact List.mem_singleton.mp he ▸ hd
    · exact .bind (leads_removeAll hAdded) fun _ _ _ => .pure _

theorem leads_enterHook : Leads LoadSteps Prime.enter s := by
  intro result after hRun
  let started := s.mapHost fun host => { host with prime := host.prime.consider Prime.firstCandidate }
  have hFirst : LoadSteps s started := .single (.prime (·.consider Prime.firstCandidate))
  rw [Prime.enter] at hRun
  split at hRun
  · rename_i vars hEdit
    cases hRun
    exact hFirst.tail (.vars vars (.assign _ _ vars hEdit))
  · cases hRun
    exact hFirst

theorem leads_enter : Leads LoadSteps primeExtension.enter s := by
  refine .bind (leads_addAll _ (fun d hd => by cases hd) fun d hd => hd) fun result mid _ => ?_
  split
  · exact .pure _
  · refine .bind leads_enterHook fun result mid _ => ?_
    split
    · exact .bind (leads_removeAll fun d hd => hd) fun _ _ _ => .pure _
    · exact .pure _

/-- A hook drops a variable, unless it is read-only. -/
theorem loadSteps_forget (name : String) (s : Options (Host Unit)) :
    LoadSteps s (s.mapHost fun host => { host with vars := Prime.forget name host.vars }) := by
  cases hEdit : s.host.vars.unset name with
  | ok vars =>
    have hSame : (s.mapHost fun host => { host with vars := Prime.forget name host.vars }) =
        s.mapHost fun host => { host with vars } := by
      rw [Options.mapHost, Options.mapHost, Prime.forget, hEdit]
      rfl
    rw [hSame]
    exact .single (.vars vars (.unset name vars hEdit))
  | error error =>
    have hSame : (s.mapHost fun host => { host with vars := Prime.forget name host.vars }) = s := by
      rw [Options.mapHost, Prime.forget, hEdit]
      rfl
    rw [hSame]

theorem leads_leaveHook : Leads LoadSteps Prime.leave s :=
  .change ((loadSteps_forget Prime.candidateName s).trans (loadSteps_forget Prime.divisorName _))

theorem leads_leave : Leads LoadSteps primeExtension.leave s := by
  refine .bind leads_leaveHook fun _ mid _ => ?_
  refine .bind (.forM (fun d hd s => ?_) mid) fun _ _ _ => leads_removeAll fun d hd => hd
  split
  · refine .bind (fun outcome after hRun => ?_) fun _ _ _ => .pure _
    exact .single (.setBack d hd _ outcome after hRun)
  · exact .pure _

/-! ## What the steps keep -/

theorem LoadStep.sound (h : LoadStep s after) (hs : Sound s) : Sound after := by
  cases h with
  | add d hd => exact hs.add (mem_family_of_prime hd)
  | remove d hd => exact hs.remove hd
  | setBack d hd value outcome after hRun =>
    exact hs.setResult ((ensures_set (mem_family_of_prime hd) .unload value hs.nesting).allows outcome after hRun)
  | prime f => exact hs.congr rfl rfl
  | vars vars hEdit => exact hs.congr rfl rfl

theorem LoadStep.read_eq (h : LoadStep s after) (hs : Sound s) {cell : CellId} (hCell : cell < StandardOptions.size) :
    after.storage.read cell = s.storage.read cell := by
  cases h with
  | add d hd => rfl
  | remove d hd =>
    obtain ⟨host, hRemoved⟩ := Options.exists_remove_eq d s
    rw [hRemoved]
    rfl
  | setBack d hd value outcome after hRun =>
    have hResult := (ensures_set (mem_family_of_prime hd) .unload value hs.nesting).allows outcome after hRun
    refine hResult.read_of_ne fun hOwn => ?_
    exact absurd hCell (Nat.not_lt.mpr (size_le_cell hd hOwn))
  | prime f => rfl
  | vars vars hEdit => rfl

theorem sound_of_loadSteps (h : LoadSteps s after) (hs : Sound s) : Sound after := by
  induction h with
  | refl => exact hs
  | tail _ hStep ih => exact hStep.sound ih

theorem read_of_loadSteps (h : LoadSteps s after) (hs : Sound s) {cell : CellId}
    (hCell : cell < StandardOptions.size) : after.storage.read cell = s.storage.read cell := by
  induction h with
  | refl => rfl
  | tail hSteps hStep ih => rw [hStep.read_eq (sound_of_loadSteps hSteps hs) hCell, ih]

/-! ## The catalog -/

/-- The options go through such steps; besides them only the list of loaded extensions changes. -/
def Loads (w after : Workspace Unit) : Prop :=
  LoadSteps w.options after.options ∧ after = { w with options := after.options, loaded := after.loaded }

instance : Std.Refl Loads := ⟨fun _ => ⟨.refl, rfl⟩⟩

instance : IsTrans (Workspace Unit) Loads where
  trans _ _ _ hFirst hSecond := ⟨hFirst.1.trans hSecond.1, by rw [hSecond.2, hFirst.2]⟩

theorem Loads.scopes_eq {w after : Workspace Unit} (h : Loads w after) : after.scopes = w.scopes := by rw [h.2]

theorem name_eq_of_find?_catalog {name : String} {ext : Extension Unit} (h : catalog.find? name = some ext) :
    name = "prime" := by
  rw [catalog, Catalog.add, Table.find?_insert] at h
  split at h
  · assumption
  · cases h

theorem eq_of_find?_catalog {name : String} {ext : Extension Unit} (h : catalog.find? name = some ext) :
    ext = primeExtension := by
  rw [catalog, Catalog.add, Table.find?_insert] at h
  split at h
  · exact (Option.some.inj h).symm
  · cases h

theorem loads_load (name : String) (w : Workspace Unit) : Leads Loads (catalog.load name).run w := by
  refine Catalog.leads_load (fun _ _ => ⟨.refl, rfl⟩) fun ext answer after hFound hRun => ?_
  rw [eq_of_find?_catalog hFound] at hRun
  exact ⟨leads_enter _ _ hRun, rfl⟩

theorem loads_unload (name : String) (w : Workspace Unit) : Leads Loads (catalog.unload name).run w := by
  refine Catalog.leads_unload (fun _ _ => ⟨.refl, rfl⟩) fun ext mid answer after hFound hRun => ?_
  rw [eq_of_find?_catalog hFound] at hRun
  exact ⟨leads_leave _ _ hRun, rfl⟩

end Shell

end OptionShell
