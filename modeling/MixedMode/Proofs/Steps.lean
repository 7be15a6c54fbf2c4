import MixedMode.Proofs.Placing
import MixedMode.Proofs.Reached
/-!
# Steps — what a step of a run can do

One step ends the run, invokes its function once more, leaves the innermost body, answers an operation of it or places
the arguments of a call (`Moment.stepped`).  What every step keeps holds at every moment of a run
(`Machine.moment_induction`).
-/
namespace MixedMode

variable {β σ : Type}

namespace Moment

/-- The moments that one step leads to. -/
inductive Stepped (cx : Context β σ) (f : Function β σ) (args : Array Word) (m : Moment β σ) : Moment β σ → Prop
  | ended {r : Except RuntimeError Word} (hstage : m.stage = .ended r) : Stepped cx f args m m
  | finished {next : Nat} {last : Word} (hstage : m.stage = .between 0 next last) :
      Stepped cx f args m { m with stage := .ended (.ok last) }
  | refused {more next : Nat} {last : Word} (hstage : m.stage = .between (more + 1) next last)
      (hfull : m.state.stack.limit < m.state.stack.depth + args.size) :
      Stepped cx f args m { m with stage := .ended (.error (.stackOverflow m.state.stack.limit)) }
  | invoked {more next : Nat} {last : Word} {entry : Entry β σ} {s : CallState σ}
      (hstage : m.stage = .between (more + 1) next last)
      (hfits : m.state.stack.depth + args.size ≤ m.state.stack.limit)
      (hplaced : Entry.Placed cx.convention f args.toList m.state.stack.words m.state s entry) :
      Stepped cx f args m (m.attempt cx more next entry args.toList m.state.stack.words [] s)
  | left {more next : Nat} {active : OpenFrame β σ} {r : Except RuntimeError Word} {callers : List (Caller β σ)}
      (hstage : m.stage = .inside more next active (.done r) callers) :
      Stepped cx f args m (m.leave more next active.floor r m.state.shallower callers)
  | answered {more next : Nat} {active : OpenFrame β σ} {op : Op σ} {k : op.Answer → Body σ}
      {callers : List (Caller β σ)} {a : Answered σ} {body : Body σ} {frame : Frame β σ} {s : CallState σ}
      (hstage : m.stage = .inside more next active (.step op k) callers)
      (hadvance : cx.advance active.frame m.state op k = .answered a body frame s) :
      Stepped cx f args m
        { m with stage := .inside more next { active with frame } body callers, state := s, answers := a :: m.answers }
  | called {more next : Nat} {active : OpenFrame β σ} {op : Op σ} {k : op.Answer → Body σ}
      {callers : List (Caller β σ)} {entry : Entry β σ} {passed under : List Word} {waiting : Waiting σ}
      {s : CallState σ} (hstage : m.stage = .inside more next active (.step op k) callers)
      (hadvance : cx.advance active.frame m.state op k = .placed entry passed under waiting s) :
      Stepped cx f args m (m.attempt cx more next entry passed under (⟨active, waiting⟩ :: callers) s)

/-- **What a step can do.** -/
theorem stepped (cx : Context β σ) (f : Function β σ) (args : Array Word) (m : Moment β σ) :
    Stepped cx f args m (m.step cx f args) := by
  cases hstage : m.stage with
  | ended r =>
    rw [step_ended hstage]
    exact .ended hstage
  | between more next last =>
    cases more with
    | zero =>
      rw [step_between_zero hstage]
      exact .finished hstage
    | succ more =>
      rcases Entry.placed_fromOutside cx.convention f args m.state with ⟨entry, s, he, hp, hfits⟩ | ⟨he, hfull⟩
      · rw [step_between_ok hstage he]
        exact .invoked hstage hfits hp
      · rw [step_between_error hstage he]
        exact .refused hstage hfull
  | inside more next active body callers =>
    cases body with
    | done r =>
      rw [step_done hstage]
      exact .left hstage
    | step op k =>
      cases ha : cx.advance active.frame m.state op k with
      | answered a body frame s =>
        rw [step_answered hstage ha]
        exact .answered hstage ha
      | placed entry passed under waiting s =>
        rw [step_placed hstage ha]
        exact .called hstage ha

/-! ## What has happened stays so -/

/-- What was entered and answered at the first moment was so at the other one too, and first. -/
structure Extends (m m' : Moment β σ) : Prop where
  entries : m.entries <:+ m'.entries
  answers : m.answers <:+ m'.answers

theorem Extends.refl (m : Moment β σ) : m.Extends m := ⟨List.suffix_rfl, List.suffix_rfl⟩

theorem Extends.trans {m m' m'' : Moment β σ} (h : m.Extends m') (h' : m'.Extends m'') : m.Extends m'' :=
  ⟨h.entries.trans h'.entries, h.answers.trans h'.answers⟩

theorem entries_leave (m : Moment β σ) (more next floor : Nat) (r : Except RuntimeError Word) (s : CallState σ)
    (callers : List (Caller β σ)) : (m.leave more next floor r s callers).entries = m.entries := by
  cases callers with
  | nil => cases r <;> rfl
  | cons c callers => rfl

theorem extends_leave (m : Moment β σ) (more next floor : Nat) (r : Except RuntimeError Word) (s : CallState σ)
    (callers : List (Caller β σ)) : m.Extends (m.leave more next floor r s callers) := by
  refine ⟨(entries_leave ..).symm ▸ List.suffix_rfl, ?_⟩
  cases callers with
  | nil => cases r <;> exact List.suffix_rfl
  | cons k callers => exact List.suffix_cons _ _

theorem extends_attempt (cx : Context β σ) (m : Moment β σ) (more next : Nat) (entry : Entry β σ)
    (passed under : List Word) (callers : List (Caller β σ)) (s : CallState σ) :
    m.Extends (m.attempt cx more next entry passed under callers s) := by
  unfold attempt
  split
  · exact ⟨List.suffix_cons _ _, List.suffix_rfl⟩
  · exact extends_leave ..

theorem extends_step (cx : Context β σ) (f : Function β σ) (args : Array Word) (m : Moment β σ) :
    m.Extends (m.step cx f args) := by
  have h := stepped cx f args m
  generalize m.step cx f args = m' at h ⊢
  cases h with
  | ended | finished | refused => exact ⟨List.suffix_rfl, List.suffix_rfl⟩
  | invoked | called => exact extends_attempt ..
  | left => exact extends_leave ..
  | answered => exact ⟨List.suffix_rfl, List.suffix_cons _ _⟩

theorem extends_iterate (cx : Context β σ) (f : Function β σ) (args : Array Word) (m : Moment β σ) (n : Nat) :
    m.Extends ((step cx f args)^[n] m) :=
  Function.Iterate.rec m.Extends (Extends.refl m) (fun m' h => h.trans (extends_step cx f args m')) n

end Moment

namespace Machine

variable {m : Machine β σ} {index : Nat} {args : Array Word} {w : World σ} {module : Module β σ} {f : Function β σ}

theorem runnable_spec {count : Nat} (h : m.runnable index count = .ok (module, f)) :
    m.module = some module ∧ module.function? index = some f ∧ count = f.arity := by
  unfold runnable at h
  split at h
  · cases h
  split at h
  · cases h
  rename_i M hM
  split at h
  · cases h
  rename_i g hg
  split at h
  · rename_i hcount
    cases h
    exact ⟨hM, hg, hcount⟩
  · cases h

/-- **What holds before a run and is kept by every step holds at every moment.** -/
theorem moment_induction {P : Moment β σ → Prop}
    (start : ∀ module f, m.runnable index args.size = .ok (module, f) →
      P (.start m.config.loopCount.toNat (m.startState f index w)))
    (step : ∀ module f mo, m.runnable index args.size = .ok (module, f) → P mo →
      P (mo.step (m.context module) f args))
    {n : Nat} {mo : Moment β σ} (h : m.moment index args w n = some mo) : P mo := by
  obtain ⟨module, f, hr, rfl⟩ := moment_spec h
  exact Function.Iterate.rec P (start module f hr) (fun mo hmo => step module f mo hr hmo) n

/-- How many of the first `n` steps of a run are such steps. -/
def happened (m : Machine β σ) (index : Nat) (args : Array Word) (w : World σ) (p : Moment β σ → Bool) (n : Nat) : Nat :=
  (List.range n).countP fun i => (m.moment index args w i).any p

theorem happened_succ {n : Nat} {mo : Moment β σ} (h : m.moment index args w n = some mo) (p : Moment β σ → Bool) :
    m.happened index args w p (n + 1) = m.happened index args w p n + (p mo).toNat := by
  rw [happened, happened, List.range_succ, List.countP_append, List.countP_singleton, h, Option.any_some]
  cases p mo <;> rfl

end Machine
end MixedMode
