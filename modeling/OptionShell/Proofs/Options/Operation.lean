import OptionShell.Options.Setter
import OptionShell.Proofs.Registry.Within
import OptionShell.Proofs.Result

/-!
# Operations on the options

The calls that a program can make on its options, as data. Most of them only set options that the registry finds, so
what setting keeps they keep as well.
-/
namespace OptionShell

variable {σ : Type}

/-- A call on the options. -/
inductive Operation (σ : Type) where
  | add (d : Definition σ)
  | remove (d : Definition σ)
  | set (d : Definition σ) (why : Access) (value : Int32)
  | setNamed (name : String) (why : Access) (value : Int32)
  | setLettered (letter : Char) (why : Access) (value : Int32)
  | turnFlag (letter sign : Char)
  | reinstateFlags (saved : SavedFlags)
  | resetAll
  | restartAll
  | inherit (roster : Roster) (why : Access) (quiet : Bool)
  | openRosters (inheriting : Bool)
  | refresh (roster : Roster)

namespace Operation

/-- The definition that the call hands over. -/
def subject? : Operation σ → Option (Definition σ)
  | add d | remove d | set d _ _ => some d
  | _ => none

/-- The definition that the call adds. -/
def added? : Operation σ → Option (Definition σ)
  | add d => some d
  | _ => none

/-- The contexts in which the operation sets options. -/
def contexts : Operation σ → List Access
  | set _ why _ | setNamed _ why _ | setLettered _ why _ | inherit _ why _ => [why]
  | turnFlag .. => [.flag]
  | reinstateFlags _ => [.scopeEnd]
  | openRosters inheriting => if inheriting then Roster.all.map Roster.access else []
  | resetAll | restartAll => [.restart]
  | add _ | remove _ | refresh _ => []

/-- Returns to initial values, which pass the policy by. -/
def resets : Operation σ → Bool
  | resetAll | restartAll => true
  | _ => false

/-- Calls that set options which are registered or handed over, and do nothing else. -/
def setsOnly : Operation σ → Bool
  | set .. | setNamed .. | setLettered .. | turnFlag .. | reinstateFlags _ | inherit .. => true
  | add _ | remove _ | resetAll | restartAll | openRosters _ | refresh _ => false

variable [HostVariables σ]

def run : Operation σ → Update σ Unit
  | add d => do let _ ← modifyGet (·.add d)
  | remove d => do let _ ← modifyGet (·.remove d)
  | set d why value => do let _ ← Update.set d why value
  | setNamed name why value => do let _ ← Update.setNamed name why value
  | setLettered letter why value => do let _ ← Update.setLettered letter why value
  | turnFlag letter sign => do let _ ← Update.turnFlag letter sign
  | reinstateFlags saved => do let _ ← Update.reinstateFlags saved
  | resetAll => do let _ ← Update.resetAll
  | restartAll => do let _ ← Update.restartAll
  | inherit roster why quiet => do let _ ← Update.inherit roster why quiet
  | openRosters inheriting => Update.openRosters inheriting
  | refresh roster => modify (·.refresh roster)

def runAll (ops : List (Operation σ)) : Update σ Unit := ops.forM run

end Operation

theorem Assign.openRosters_true [HostVariables σ] (set : Assign σ) :
    set.openRosters true = (do
      let _ ← set.inherit .shellopts Roster.shellopts.access true
      let _ ← set.inherit .bashopts Roster.bashopts.access true
      modify (·.refreshAll)) := by
  simp [openRosters, Roster.all]

theorem Update.openRosters_true [HostVariables σ] :
    (openRosters true : Update σ Unit) = (do
      let _ ← inherit .shellopts Roster.shellopts.access true
      let _ ← inherit .bashopts Roster.bashopts.access true
      modify (·.refreshAll)) :=
  Assign.openRosters_true set

variable [HostVariables σ]

/-- What setting each of the flags keeps holds after all of them are put back. -/
theorem ensures_reinstateFlags {I : Options σ → Prop} {saved : SavedFlags}
    (hSet : ∀ flag ∈ saved.values, ∀ s, I s → ∀ d, s.registry.findLetter? flag.1 = some d →
      Ensures (Update.set d .scopeEnd flag.2) s fun _ after => I after) {s : Options σ} (hs : I s) :
    Ensures (Update.reinstateFlags saved) s fun _ after => I after := by
  refine .foldlM (fun flag hFlag count s hs => ?_) hs
  have hOne : Ensures (Update.reinstateFlag flag.1 flag.2) s fun _ after => I after := by
    apply Ensures.get_bind
    split
    · exact .pure hs
    · rename_i d hFound
      split
      · exact .pure hs
      · exact .bind (hSet flag hFlag s hs d hFound) fun _ _ hAfter => .pure hAfter
  exact hOne.bind fun _ _ hAfter => .pure hAfter

/-- A property of the options that setting one of `defs` keeps, while only these are registered. -/
structure SetInvariant (defs : Set (Definition σ)) (I : Options σ → Prop) : Prop where
  within : ∀ s, I s → s.registry.Within defs
  set : ∀ d ∈ defs, ∀ why value s, I s → Ensures (Update.set d why value) s fun _ after => I after

namespace SetInvariant

variable {defs : Set (Definition σ)} {I : Options σ → Prop} {s : Options σ}

theorem setNamed (h : SetInvariant defs I) (name : String) (why : Access) (value : Int32) (hs : I s) :
    Ensures (Update.setNamed name why value) s fun _ after => I after := by
  apply Ensures.get_bind
  split
  · rename_i d hFound
    exact h.set d ((h.within s hs).named hFound) why value s hs
  · exact .pure hs

theorem setLettered (h : SetInvariant defs I) (letter : Char) (why : Access) (value : Int32) (hs : I s) :
    Ensures (Update.setLettered letter why value) s fun _ after => I after := by
  apply Ensures.get_bind
  split
  · rename_i d hFound
    exact h.set d ((h.within s hs).lettered letter d hFound) why value s hs
  · exact .pure hs

theorem switchFlag (h : SetInvariant defs I) (letter : Char) (on : Bool) (hs : I s) :
    Ensures (Update.switchFlag letter on) s fun _ after => I after := by
  apply Ensures.get_bind
  split
  · exact .pure hs
  · rename_i d hFound
    exact .bind (h.set d ((h.within s hs).lettered letter d hFound) .flag _ s hs) fun _ _ hAfter => .pure hAfter

theorem turnFlag (h : SetInvariant defs I) (letter sign : Char) (hs : I s) :
    Ensures (Update.turnFlag letter sign) s fun _ after => I after := by
  rw [Update.turnFlag, Assign.turnFlag]
  split
  · exact h.switchFlag letter _ hs
  · exact .pure hs

theorem reinstateFlags (h : SetInvariant defs I) (saved : SavedFlags) (hs : I s) :
    Ensures (Update.reinstateFlags saved) s fun _ after => I after :=
  ensures_reinstateFlags (fun flag _ s hs d hFound => h.set d ((h.within s hs).lettered flag.1 d hFound) _ _ s hs) hs

theorem inheritName (h : SetInvariant defs I) (roster : Roster) (why : Access) (name : String) (hs : I s) :
    Ensures (Update.inheritName roster why name) s fun _ after => I after := by
  apply Ensures.get_bind
  split
  · exact .pure hs
  · rename_i d hFound
    split
    · exact .pure hs
    · exact .bind (h.set d ((h.within s hs).named hFound) why 1 s hs) fun _ _ hAfter => .pure hAfter

theorem inherit (h : SetInvariant defs I) (roster : Roster) (why : Access) (quiet : Bool) (hs : I s) :
    Ensures (Update.inherit roster why quiet) s fun _ after => I after := by
  have hNames : Ensures ((s.inheritedNames roster).filterMapM (Update.inheritName roster why)) s
      fun _ after => I after :=
    .filterMapM (I := fun _ s => I s) [] (fun _ name s hs => h.inheritName roster why name hs) hs
  exact .get_bind (hNames.bind fun _ _ hAfter => .pure hAfter)

theorem runSetting (h : SetInvariant defs I) (op : Operation σ) (hSets : op.setsOnly = true)
    (hOp : ∀ d, op.subject? = some d → d ∈ defs) (hs : I s) : Ensures op.run s fun _ after => I after := by
  have hDone : ∀ {α : Type} {m : Update σ α}, (Ensures m s fun _ after => I after) →
      Ensures (do let _ ← m) s fun _ after => I after :=
    fun hEnsures => .bind hEnsures fun _ _ hAfter => .pure hAfter
  cases op with
  | set d why value => exact hDone (h.set d (hOp d rfl) why value s hs)
  | setNamed name why value => exact hDone (h.setNamed name why value hs)
  | setLettered letter why value => exact hDone (h.setLettered letter why value hs)
  | turnFlag letter sign => exact hDone (h.turnFlag letter sign hs)
  | reinstateFlags saved => exact hDone (h.reinstateFlags saved hs)
  | inherit roster why quiet => exact hDone (h.inherit roster why quiet hs)
  | add d => cases hSets
  | remove d => cases hSets
  | resetAll => cases hSets
  | restartAll => cases hSets
  | openRosters inheriting => cases hSets
  | refresh roster => cases hSets

theorem runSettings (h : SetInvariant defs I) (ops : List (Operation σ)) (hSets : ∀ op ∈ ops, op.setsOnly = true)
    (hOps : ∀ op ∈ ops, ∀ d, op.subject? = some d → d ∈ defs) (hs : I s) :
    Ensures (Operation.runAll ops) s fun _ after => I after :=
  .forEach (fun op hMem _ hs => h.runSetting op (hSets op hMem) (hOps op hMem) hs) hs

/-- The last step of opening the rosters is a refresh of both. -/
theorem openRosters {J : Options σ → Prop} (h : SetInvariant defs I) (inheriting : Bool) (hs : I s)
    (hRefresh : ∀ s, I s → J s.refreshAll) :
    Ensures (Update.openRosters inheriting) s fun _ after => J after := by
  cases inheriting with
  | false => exact .modify (hRefresh s hs)
  | true =>
    rw [Update.openRosters_true]
    refine .bind (h.inherit .shellopts _ true hs) fun _ first hFirst => ?_
    refine .bind (h.inherit .bashopts _ true hFirst) fun _ second hSecond => ?_
    exact .modify (hRefresh second hSecond)

end SetInvariant

end OptionShell
