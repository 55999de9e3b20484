import OptionShell.Proofs.Prime.Agreement
import OptionShell.Proofs.Shell.PrimeMoves

/-!
# What the loaded extension remembers

Whatever a shell has run: while the extension is loaded, a factor that it remembers is the one of its candidate. Every
move of the extension keeps to that.
-/
namespace OptionShell

namespace Shell

variable {core : Registry (Host Unit)} {w after : Workspace Unit} {shell : Shell}

/-- Equipped workspaces where the loaded extension keeps no factor of another number than its candidate. -/
structure Tracking (core : Registry (Host Unit)) (w : Workspace Unit) : Prop where
  equipped : Equipped core w
  current : "prime" ∈ w.loaded → w.options.host.prime.Current

namespace Tracking

theorem of_prime_eq (h : Tracking core w) (hEquipped : Equipped core after) (hLoaded : after.loaded = w.loaded)
    (hPrime : after.options.host.prime = w.options.host.prime) : Tracking core after := by
  refine ⟨hEquipped, ?_⟩
  rw [hLoaded, hPrime]
  exact h.current

theorem unload (h : Tracking core w) {name : String} {result : Except ShellError Unit}
    (hRun : (catalog.unload name).run w = some (result, after)) : Tracking core after := by
  refine ⟨h.equipped.unload hRun, ?_⟩
  by_cases hLoaded : name ∈ w.loaded
  · have hPrime := h.equipped.stocked.loaded_eq hLoaded
    obtain rfl : name = "prime" := List.mem_singleton.mp (hPrime ▸ hLoaded)
    rw [((h.equipped.stocked.ensures_unload hPrime).allows result after hRun).loaded]
    exact nofun
  · rw [run_unload_of_not_loaded hLoaded] at hRun
    cases hRun
    exact h.current

end Tracking

theorem Reachable.tracking (h : Reachable shell) : ∃ core, Tracking core shell.session.toWorkspace := by
  obtain ⟨core, hEquipped, hMoves⟩ := h.primeMoves
  exact ⟨core, hEquipped, fun _ => Prime.State.Current.moves (.inl rfl) hMoves⟩

end Shell

end OptionShell
