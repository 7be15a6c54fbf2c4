import MixedMode.Call.Enter
import MixedMode.Proofs.Placing
/-!
# Balance — every body that is entered is left

The nesting counter is one more while a body runs.  Whatever the body does, calls and their failures included, the
counter is back when the body is over (`Context.enter_balanced`), and so it is after every operation of a frame
(`Context.nesting_perform`).  Hence it is the counter that refuses a call and not the bound on the recursion: a bound
that is no closer than the limit of the counter makes no difference (`Context.enter_of_le`), and `enter` satisfies an
equation that knows no bound (`Context.enter_eq`).
-/
namespace MixedMode

variable {β σ α : Type}

/-- The counter is the same after a callee as before it. -/
def Enter.Balanced (enter : Enter β σ) : Prop := ∀ entry s, (enter entry s).2.nesting = s.nesting

theorem Entry.Placed.nesting {c : Convention} {f : Function β σ} {passed under : List Word} {s s' : CallState σ}
    {entry : Entry β σ} (h : Placed c f passed under s s' entry) : s'.nesting = s.nesting := by
  rw [h.rest]

namespace Frame

variable {enter : Enter β σ}

theorem nesting_pop (f : Frame β σ) (s : CallState σ) : (f.pop s).2.nesting = s.nesting := by
  unfold pop
  split <;> rfl

theorem nesting_call (cx : Context β σ) (he : enter.Balanced) (f : Frame β σ) (index : Nat) (s : CallState σ) :
    (f.call cx enter index s).2.nesting = s.nesting := by
  rcases placeCall_cases cx f index s with ⟨-, hp⟩ | ⟨_, -, -, hp⟩ | ⟨_, entry, s', -, -, hp, hplaced⟩
  · rw [call, hp]
  · rw [call, hp]
  · have hleft : (Enter.leave enter entry s').2.nesting = s.nesting := (he entry s').trans hplaced.nesting
    rw [call, hp]
    dsimp only
    cases h : Enter.leave enter entry s' with
    | mk r u =>
      rw [h] at hleft
      cases r <;> exact hleft

theorem nesting_callWith (cx : Context β σ) (he : enter.Balanced) (index : Nat) (args : Array Word) (s : CallState σ) :
    (callWith cx enter index args s).2.nesting = s.nesting := by
  rcases placeCallWith_cases cx index args s with
    ⟨-, hp⟩ | ⟨_, -, -, hp⟩ | ⟨_, -, -, -, -, hp⟩ | ⟨_, entry, s', -, -, -, hp, hplaced⟩
  · rw [callWith, hp]
  · rw [callWith, hp]
  · rw [callWith, hp]
  · rw [callWith, hp]
    exact (he entry s').trans hplaced.nesting

end Frame

namespace Context

variable (cx : Context β σ) {enter : Enter β σ}

/-- **After any operation of a frame, whatever it came to, the counter is what it was.** -/
theorem nesting_perform (he : enter.Balanced) (op : Op σ) (f : Frame β σ) (s : CallState σ) :
    (cx.perform enter op f s).2.2.nesting = s.nesting := by
  cases op with
  | pop => exact f.nesting_pop s
  | call index => exact f.nesting_call cx he index s
  | callWith index args => exact Frame.nesting_callWith cx he index args s
  | _ => rfl

theorem nesting_run (he : enter.Balanced) : ∀ (p : Program σ α) (f : Frame β σ) (s : CallState σ),
    (p.run (cx.perform enter) f s).2.2.nesting = s.nesting
  | .done _, _, _    => rfl
  | .step op k, f, s => (nesting_run he (k _) _ _).trans (cx.nesting_perform he op f s)

/-- **A callee leaves the counter as it finds it**, whatever its body does and however deep it calls. -/
theorem enter_balanced : ∀ levels : Nat, (cx.enter levels).Balanced
  | 0, _, _              => rfl
  | levels + 1, entry, s => by
    rw [enter]
    split
    · rfl
    · have hrun := cx.nesting_run (enter_balanced levels) (cx.bodyOf entry.function entry.target)
        (entry.frame (s.countEntry cx.convention entry.function entry.target).stack.depth)
        (s.countEntry cx.convention entry.function entry.target).deeper
      exact congrArg (· - 1) (hrun.trans (s.nesting_entered ..))

/-- **An invocation leaves the counter as it finds it**, whatever its outcome. -/
theorem nesting_invoke (f : Function β σ) (args : Array Word) (s : CallState σ) :
    (cx.invoke f args s).2.nesting = s.nesting := by
  rcases Entry.placed_fromOutside cx.convention f args s with ⟨entry, s', hp, hplaced, -⟩ | ⟨hp, -⟩
  · rw [invoke, hp]
    exact (cx.enter_balanced cx.maxDepth entry s').trans hplaced.nesting
  · rw [invoke, hp]

end Context

/-! ## The bound on the recursion does not matter -/

/-- Two ways to run a callee come to the same wherever the counter stands at `n`. -/
def Enter.SameAt (n : Nat) (enter enter' : Enter β σ) : Prop :=
  ∀ entry s, s.nesting = n → enter entry s = enter' entry s

namespace Frame

variable {enter enter' : Enter β σ}

theorem call_congr {s : CallState σ} (he : enter.SameAt s.nesting enter') (cx : Context β σ) (f : Frame β σ)
    (index : Nat) : f.call cx enter index s = f.call cx enter' index s := by
  rcases placeCall_cases cx f index s with ⟨-, hp⟩ | ⟨_, -, -, hp⟩ | ⟨_, entry, s', -, -, hp, hplaced⟩
  · rw [call, call, hp]
  · rw [call, call, hp]
  · rw [call, call, hp]
    dsimp only [Enter.leave]
    rw [he entry s' hplaced.nesting]

theorem callWith_congr {s : CallState σ} (he : enter.SameAt s.nesting enter') (cx : Context β σ) (index : Nat)
    (args : Array Word) : callWith cx enter index args s = callWith cx enter' index args s := by
  rcases placeCallWith_cases cx index args s with
    ⟨-, hp⟩ | ⟨_, -, -, hp⟩ | ⟨_, -, -, -, -, hp⟩ | ⟨_, entry, s', -, -, -, hp, hplaced⟩
  · rw [callWith, callWith, hp]
  · rw [callWith, callWith, hp]
  · rw [callWith, callWith, hp]
  · rw [callWith, callWith, hp]
    dsimp only [Enter.leave]
    rw [he entry s' hplaced.nesting]

end Frame

namespace Context

variable (cx : Context β σ) {enter enter' : Enter β σ}

theorem perform_congr {s : CallState σ} (he : enter.SameAt s.nesting enter') (op : Op σ) (f : Frame β σ) :
    cx.perform enter op f s = cx.perform enter' op f s := by
  cases op with
  | call index =>
    simp only [perform]
    rw [Frame.call_congr he]
  | callWith index args =>
    simp only [perform]
    rw [Frame.callWith_congr he]
  | _ => rfl

/-- A program asks its callees at one stand of the counter only: each operation leaves it as it was. -/
theorem run_congr {n : Nat} (he : enter.SameAt n enter') (hb : enter'.Balanced) :
    ∀ (p : Program σ α) (f : Frame β σ) (s : CallState σ), s.nesting = n →
      p.run (cx.perform enter) f s = p.run (cx.perform enter') f s
  | .done _, _, _, _    => rfl
  | .step op k, f, s, h => by
    rw [Program.run, Program.run, cx.perform_congr (h ▸ he) op f]
    exact run_congr he hb _ _ _ ((cx.nesting_perform hb op f s).trans h)

/-- **A bound that reaches as far as the counter may go makes no difference**: it is the counter that refuses a
call. -/
theorem enter_of_le : ∀ (levels levels' : Nat) (entry : Entry β σ) (s : CallState σ),
    cx.maxDepth ≤ s.nesting + levels → cx.maxDepth ≤ s.nesting + levels' →
    cx.enter levels entry s = cx.enter levels' entry s
  | 0, 0, _, _, _, _                        => rfl
  | 0, levels' + 1, _, _, h, _              => (if_pos h).symm
  | levels + 1, 0, _, _, _, h'              => if_pos h'
  | levels + 1, levels' + 1, entry, s, h, h' => by
    have hsame : (cx.enter levels).SameAt (s.nesting + 1) (cx.enter levels') := fun entry' s' hs' =>
      enter_of_le levels levels' entry' s' (by omega) (by omega)
    rw [enter, enter]
    split
    · rfl
    · dsimp only
      rw [cx.run_congr hsame (cx.enter_balanced levels') _ _ _ (s.nesting_entered ..)]

theorem enter_refuses {levels : Nat} {entry : Entry β σ} {s : CallState σ} (h : levels = 0 ∨ cx.maxDepth ≤ s.nesting) :
    cx.enter levels entry s = (.error (.recursionLimit cx.maxDepth), s) := by
  cases levels with
  | zero        => rfl
  | succ levels => exact if_pos (h.resolve_left (Nat.succ_ne_zero levels))

/-- **How a callee is entered, with no bound on the recursion**: calls in its body are run as it is itself, from a
counter that stands one higher. -/
theorem enter_eq {levels : Nat} {entry : Entry β σ} {s : CallState σ} (h : cx.maxDepth ≤ s.nesting + levels) :
    cx.enter levels entry s =
      if cx.maxDepth ≤ s.nesting then (.error (.recursionLimit cx.maxDepth), s)
      else
        let s := s.countEntry cx.convention entry.function entry.target
        let body := cx.bodyOf entry.function entry.target
        match body.run (cx.perform (cx.enter levels)) (entry.frame s.stack.depth) s.deeper with
        | (r, _, s) => (r, s.shallower) := by
  rw [cx.enter_of_le levels (levels + 1) entry s h (by omega), enter]

end Context
end MixedMode
