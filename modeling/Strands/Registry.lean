/-
The registry of listeners and stop handlers.

Listeners are a set in the order of registration: registering one that is
present changes nothing, and `nodup_register` keeps them apart.  Handlers are kept
in order and may repeat.
-/
import Strands.Code

namespace Strands

variable {W : Type}

structure Registry (W : Type) where
  listeners : List ObjectId := []
  handlers : List (Strand → Code W) := []

namespace Registry

def register (r : Registry W) (listener : ObjectId) : Registry W :=
  if r.listeners.contains listener then r
  else { r with listeners := r.listeners ++ [listener] }

def deregister (r : Registry W) (listener : ObjectId) : Registry W :=
  { r with listeners := r.listeners.erase listener }

def addHandler (r : Registry W) (handler : Strand → Code W) : Registry W :=
  { r with handlers := r.handlers ++ [handler] }

/-- The registry after its handlers were taken out to be run. -/
def takeHandlers (r : Registry W) : Registry W := { r with handlers := [] }

theorem mem_register {r : Registry W} {listener other : ObjectId} :
    other ∈ (r.register listener).listeners ↔ other = listener ∨ other ∈ r.listeners := by
  unfold register
  split
  · rename_i h
    have hm : listener ∈ r.listeners := List.contains_iff_mem.1 h
    exact ⟨Or.inr, fun h => h.elim (fun e => e ▸ hm) id⟩
  · rw [List.mem_append, List.mem_singleton, or_comm]

/-- No listener is registered twice. -/
theorem nodup_register {r : Registry W} (h : r.listeners.Nodup) (listener : ObjectId) :
    (r.register listener).listeners.Nodup := by
  unfold register
  split
  · exact h
  · rename_i hn
    have hne : listener ∉ r.listeners := fun hm => hn (List.contains_iff_mem.2 hm)
    refine List.nodup_append.2 ⟨h, by simp, ?_⟩
    intro a ha b hb e
    have : b = listener := List.mem_singleton.1 hb
    exact hne (this ▸ e ▸ ha)

theorem nodup_deregister {r : Registry W} (h : r.listeners.Nodup) (listener : ObjectId) :
    (r.deregister listener).listeners.Nodup := h.erase listener

theorem mem_deregister {r : Registry W} (h : r.listeners.Nodup) {listener other : ObjectId} :
    other ∈ (r.deregister listener).listeners ↔ other ≠ listener ∧ other ∈ r.listeners :=
  h.mem_erase_iff

end Registry
end Strands
