import Treewalk.Evaluation.Statement
import Treewalk.Proofs.Scoping.Path

/-!
The steps of a run, as what they do to the world.
-/

namespace Treewalk.Run

variable {α β : Type} {world : World}

theorem bind_eq_of_ok {first : Run α} {next : α → Run β} {after : World} {value : α}
    (h : first world = .ok value after) : (first >>= next) world = next value after := by
  simp [bind, EStateM.bind, h]

theorem bind_eq_of_error {first : Run α} {next : α → Run β} {after : World} {reason : Stop}
    (h : first world = .error reason after) :
    (first >>= next) world = .error reason after := by
  simp [bind, EStateM.bind, h]

theorem ok_of_bind {first : Run α} {next : α → Run β} {last : World} {result : β}
    (h : (first >>= next) world = .ok result last) :
    ∃ value after, first world = .ok value after ∧ next value after = .ok result last := by
  cases hfirst : first world with
  | ok value after => exact ⟨value, after, rfl, by rwa [bind_eq_of_ok hfirst] at h⟩
  | error reason after => simp [bind_eq_of_error hfirst] at h

theorem ofExcept_apply (result : Except Stop α) (world : World) :
    ofExcept result world =
      match result with
      | .ok value => .ok value world
      | .error reason => .error reason world := by
  cases result <;> rfl

theorem get_apply (world : World) : (get : Run World) world = .ok world world := rfl

theorem lookup_apply (frame : FrameId) (name : Token) (world : World) :
    lookup frame name world =
      match world.store.get frame name with
      | .ok value => .ok value world
      | .error reason => .error reason world := by
  rw [lookup, bind_eq_of_ok (get_apply world)]
  cases world.store.get frame name <;> rfl

theorem changeStore_apply (change : Store → Except Stop Store) (world : World) :
    changeStore change world =
      match change world.store with
      | .ok store => .ok () { world with store }
      | .error reason => .error reason world := by
  have hstep := ofExcept_apply (change world.store) world
  rw [changeStore, bind_eq_of_ok (get_apply world)]
  cases hchange : change world.store with
  | ok store =>
      rw [hchange] at hstep
      exact (bind_eq_of_ok hstep).trans rfl
  | error reason =>
      rw [hchange] at hstep
      exact bind_eq_of_error hstep

theorem release_apply {size : Nat} (hsize : world.store.frames.size = size + 1)
    (hinner : size ≠ 0) :
    ∃ released : Bindings, release size world = .ok () { world with
      store := ⟨world.store.frames.pop, released.clear :: world.store.pool⟩ } := by
  obtain ⟨released, hpop⟩ := Store.pop_eq_ok hsize hinner
  refine ⟨released, ?_⟩
  rw [release, changeStore_apply, hpop]
  rfl

end Treewalk.Run
