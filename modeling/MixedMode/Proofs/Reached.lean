import MixedMode.Proofs.Balance
import MixedMode.Proofs.Moment
/-!
# Reached — the steps of a run lead to its outcome

A callee that is attempted is left with what `Context.enter` answers (`leads_leave`), by induction on the bound of
`enter` and on the body: no step moves the nesting counter but those that enter a body or leave one, so the counter
stays as far from the bound as it was.  So the invocations lead to what `iterate` answers and the run to what `runWith`
answers.  Once a run is over it stays as it is, so a moment that is over is the last one.
-/
namespace MixedMode

variable {β σ : Type}

/-- **A program performs its first operation, then the rest of it.**  A callee that was placed is entered, left, and
its outcome handed to the program. -/
theorem Context.run_step (cx : Context β σ) (levels : Nat) (op : Op σ) (k : op.Answer → Body σ) (f : Frame β σ)
    (s : CallState σ) :
    (Program.step op k).run (cx.perform (cx.enter levels)) f s =
      match cx.advance f s op k with
      | .answered _ body f s => body.run (cx.perform (cx.enter levels)) f s
      | .placed entry _ _ waiting s =>
        match Enter.leave (cx.enter levels) entry s with
        | (r, s) =>
          match waiting.resume r s with
          | (_, body, s) => body.run (cx.perform (cx.enter levels)) f s := by
  cases op with
  | call index =>
    simp only [Program.run, Context.perform, Frame.call, Context.advance]
    cases hp : f.placeCall cx index s with
    | mk r s' =>
      cases r with
      | error e => rfl
      | ok entry =>
        dsimp only
        cases Enter.leave (cx.enter levels) entry s' with
        | mk r s'' => cases r <;> rfl
  | callWith index args =>
    simp only [Program.run, Context.perform, Frame.callWith, Context.advance]
    cases hp : Frame.placeCallWith cx index args s with
    | mk r s' => cases r <;> rfl
  | _ => rfl

/-! ## What only entering and leaving change -/

/-- An operation that is answered at once changes nothing but the stack and what bodies keep. -/
theorem Context.rest_of_answered {cx : Context β σ} {f g : Frame β σ} {s t : CallState σ} {op : Op σ}
    {k : op.Answer → Body σ} {a : Answered σ} {body : Body σ} (h : cx.advance f s op k = .answered a body g t) :
    t = { s with stack := t.stack, kept := t.kept } := by
  cases op with
  | call index =>
    simp only [advance] at h
    rcases Frame.placeCall_cases cx f index s with ⟨-, hp⟩ | ⟨_, -, -, hp⟩ | ⟨_, entry, s₁, -, -, hp, -⟩ <;>
      rw [hp] at h <;> cases h <;> rfl
  | callWith index args =>
    simp only [advance] at h
    rcases Frame.placeCallWith_cases cx index args s with
      ⟨-, hp⟩ | ⟨_, -, -, hp⟩ | ⟨_, -, -, -, -, hp⟩ | ⟨_, entry, s₁, -, -, -, hp, -⟩ <;>
      rw [hp] at h <;> cases h <;> rfl
  | pop =>
    simp only [advance, perform, Frame.pop] at h
    split at h <;> cases h <;> rfl
  | _ => cases h; rfl

/-- Placing the arguments of a call changes nothing but the stack. -/
theorem Context.rest_of_placed {cx : Context β σ} {f : Frame β σ} {s t : CallState σ} {op : Op σ}
    {k : op.Answer → Body σ} {entry : Entry β σ} {passed under : List Word} {waiting : Waiting σ}
    (h : cx.advance f s op k = .placed entry passed under waiting t) : t = { s with stack := t.stack } := by
  cases op with
  | call index =>
    simp only [advance] at h
    rcases Frame.placeCall_cases cx f index s with ⟨-, hp⟩ | ⟨_, -, -, hp⟩ | ⟨_, _, _, -, -, hp, hplaced⟩ <;>
      rw [hp] at h <;> cases h
    exact hplaced.rest
  | callWith index args =>
    simp only [advance] at h
    rcases Frame.placeCallWith_cases cx index args s with
      ⟨-, hp⟩ | ⟨_, -, -, hp⟩ | ⟨_, -, -, -, -, hp⟩ | ⟨_, _, _, -, -, -, hp, hplaced⟩ <;> rw [hp] at h <;> cases h
    exact hplaced.rest
  | _ => cases h

/-- Nor does the answer to a call change anything else. -/
theorem Waiting.rest_resume (waiting : Waiting σ) (r : Except RuntimeError Word) (s : CallState σ) :
    (waiting.resume r s).2.2 = { s with stack := (waiting.resume r s).2.2.stack } := by
  cases waiting with
  | call index next => cases r <;> rfl
  | callWith index args next => rfl

namespace Moment

variable {cx : Context β σ} {f : Function β σ} {args : Array Word} {m m' m'' : Moment β σ}

theorem nesting_leave (m : Moment β σ) (more next floor : Nat) (r : Except RuntimeError Word) (s : CallState σ)
    (callers : List (Caller β σ)) : (m.leave more next floor r s callers).state.nesting = s.nesting := by
  cases callers with
  | nil => cases r <;> rfl
  | cons c callers => exact (congrArg CallState.nesting (c.waiting.rest_resume r (s.truncate floor)) :)

/-- Some number of steps takes one moment to the other. -/
def Leads (cx : Context β σ) (f : Function β σ) (args : Array Word) (m m' : Moment β σ) : Prop :=
  ∃ n, (step cx f args)^[n] m = m'

theorem Leads.refl (m : Moment β σ) : Leads cx f args m m := ⟨0, rfl⟩

theorem Leads.trans : Leads cx f args m m' → Leads cx f args m' m'' → Leads cx f args m m''
  | ⟨n, h⟩, ⟨n', h'⟩ => ⟨n' + n, by rw [Function.iterate_add_apply, h, h']⟩

theorem Leads.head (h : Leads cx f args (step cx f args m) m') : Leads cx f args m m' :=
  Leads.trans ⟨1, rfl⟩ h

section Outcome

variable (cx f args)

/-- What a body leads to, once that is known of the callees it may enter. -/
theorem leads_of_body (levels more next : Nat)
    (hcall : ∀ (m : Moment β σ) (entry : Entry β σ) (passed under : List Word) (callers : List (Caller β σ))
      (s : CallState σ), cx.maxDepth ≤ s.nesting + levels →
      ∃ m' : Moment β σ, Leads cx f args (m.attempt cx more next entry passed under callers s)
        (m'.leave more next entry.floor (cx.enter levels entry s).1 (cx.enter levels entry s).2 callers))
    (callers : List (Caller β σ)) (body : Body σ) :
    ∀ (m : Moment β σ) (active : OpenFrame β σ), m.stage = .inside more next active body callers →
      cx.maxDepth ≤ m.state.nesting + levels →
      ∃ m' : Moment β σ, Leads cx f args m
        (m'.leave more next active.floor (body.run (cx.perform (cx.enter levels)) active.frame m.state).1
          (body.run (cx.perform (cx.enter levels)) active.frame m.state).2.2.shallower callers) := by
  induction body with
  | done r =>
    intro m active hm hlevels
    refine ⟨m, Leads.head ?_⟩
    rw [step_done hm]
    exact Leads.refl _
  | step op k ih =>
    intro m active hm hlevels
    rw [Context.run_step]
    cases ha : cx.advance active.frame m.state op k with
    | answered a body frame s =>
      obtain ⟨answer, rfl, rfl⟩ := Context.advance_answered ha
      have hstep : step cx f args m = _ := step_answered hm ha
      obtain ⟨m', h⟩ := ih answer _ { active with frame } (congrArg stage hstep) (by
        rw [hstep, congrArg CallState.nesting (Context.rest_of_answered ha)]
        exact hlevels)
      refine ⟨m', Leads.head ?_⟩
      rw [hstep] at h ⊢
      exact h
    | placed entry passed under waiting s =>
      have hs : s.nesting = m.state.nesting := by rw [Context.rest_of_placed ha]
      obtain ⟨m₁, h₁⟩ := hcall m entry passed under (⟨active, waiting⟩ :: callers) s (hs ▸ hlevels)
      obtain ⟨answer, hanswer, hbody⟩ := Context.advance_placed ha (cx.enter levels entry s).1
        ((cx.enter levels entry s).2.truncate entry.floor)
      have hback : (m₁.leave more next entry.floor (cx.enter levels entry s).1 (cx.enter levels entry s).2
          (⟨active, waiting⟩ :: callers)).state.nesting = m.state.nesting :=
        (nesting_leave ..).trans ((cx.enter_balanced levels entry s).trans hs)
      obtain ⟨m', h⟩ := ih answer (m₁.leave more next entry.floor (cx.enter levels entry s).1
        (cx.enter levels entry s).2 (⟨active, waiting⟩ :: callers)) active (by rw [← hbody]; rfl)
        (hback ▸ hlevels)
      refine ⟨m', Leads.head ?_⟩
      rw [step_placed hm ha]
      rw [← hbody] at h
      exact h₁.trans h

/-- **A callee that is attempted is left with what `Context.enter` answers**, if the bound is no closer than the
limit of the counter. -/
theorem leads_leave (more next : Nat) : ∀ (levels : Nat) (m : Moment β σ) (entry : Entry β σ)
    (passed under : List Word) (callers : List (Caller β σ)) (s : CallState σ),
    cx.maxDepth ≤ s.nesting + levels →
    ∃ m' : Moment β σ, Leads cx f args (m.attempt cx more next entry passed under callers s)
      (m'.leave more next entry.floor (cx.enter levels entry s).1 (cx.enter levels entry s).2 callers)
  | 0, m, entry, passed, under, callers, s, hlevels => by
    refine ⟨m, ?_⟩
    rw [attempt_of_le hlevels]
    exact Leads.refl _
  | levels + 1, m, entry, passed, under, callers, s, hlevels => by
    rw [Context.enter]
    by_cases hfull : cx.maxDepth ≤ s.nesting
    · refine ⟨m, ?_⟩
      rw [attempt_of_le hfull, if_pos hfull]
      exact Leads.refl _
    · rw [attempt_of_lt (Nat.lt_of_not_le hfull), if_neg hfull]
      obtain ⟨m', h⟩ := leads_of_body cx f args levels more next (leads_leave more next levels) callers
        (cx.bodyOf entry.function entry.target)
        { m with stage := .inside more next ⟨entry.frame s.stack.depth, entry.floor, passed, under⟩
                   (cx.bodyOf entry.function entry.target) callers,
                 state := (s.countEntry cx.convention entry.function entry.target).deeper,
                 entries := entry :: m.entries } ⟨entry.frame s.stack.depth, entry.floor, passed, under⟩ rfl (by
          rw [CallState.nesting_entered]
          omega)
      dsimp only
      rw [CallState.stack_countEntry]
      exact ⟨m', h⟩

/-- **The invocations that are left lead to what `iterate` answers.** -/
theorem leads_ended : ∀ (more next : Nat) (last : Word) (m : Moment β σ), m.stage = .between more next last →
    ∃ m' : Moment β σ, Leads cx f args m m' ∧
      m'.stage = .ended (Machine.iterate cx f args more next last m.state).1 ∧
      m'.state = (Machine.iterate cx f args more next last m.state).2
  | 0, next, last, m, hm => by
    have h : step cx f args m = _ := step_between_zero hm
    refine ⟨step cx f args m, Leads.head (Leads.refl _), congrArg stage h, ?_⟩
    rw [h]; rfl
  | more + 1, next, last, m, hm => by
    rw [Machine.iterate, Context.invoke]
    cases hp : Entry.fromOutside cx.convention f args m.state with
    | mk r s =>
      cases r with
      | error e =>
        have h : step cx f args m = _ := step_between_error hm hp
        exact ⟨_, Leads.head (Leads.refl _), congrArg stage h, congrArg state h⟩
      | ok entry =>
        obtain ⟨m₁, h₁⟩ := leads_leave cx f args more next cx.maxDepth m entry args.toList
          m.state.stack.words [] s (Nat.le_add_left _ _)
        dsimp only [Enter.leave]
        cases he : cx.enter cx.maxDepth entry s with
        | mk r s' =>
          rw [he] at h₁
          rw [← step_between_ok hm hp] at h₁
          cases r with
          | error e => exact ⟨_, h₁.head, rfl, rfl⟩
          | ok w =>
            obtain ⟨m', h, hstage, hstate⟩ := leads_ended more (next + 1) w
              (m₁.leave more next entry.floor (.ok w) s' []) rfl
            exact ⟨m', h₁.head.trans h, hstage, hstate⟩

end Outcome

theorem iterate_step_ended {r : Except RuntimeError Word} (hm : m.stage = .ended r) (n : Nat) :
    (step cx f args)^[n] m = m :=
  Function.iterate_fixed (step_ended hm) n

theorem ended_unique {n n' : Nat} {r r' : Except RuntimeError Word} (h : ((step cx f args)^[n] m).stage = .ended r)
    (h' : ((step cx f args)^[n'] m).stage = .ended r') : (step cx f args)^[n] m = (step cx f args)^[n'] m := by
  rw [← iterate_step_ended h n', ← iterate_step_ended h' n, ← Function.iterate_add_apply,
    ← Function.iterate_add_apply, Nat.add_comm]

end Moment

namespace Machine

variable {m : Machine β σ} {index : Nat} {args : Array Word} {w : World σ} {module : Module β σ} {f : Function β σ}

theorem moment_of_runnable (h : m.runnable index args.size = .ok (module, f)) (n : Nat) :
    m.moment index args w n = some ((Moment.step (m.context module) f args)^[n]
      (Moment.start m.config.loopCount.toNat (m.startState f index w))) := by
  rw [moment, h]

theorem moment_add (h : m.runnable index args.size = .ok (module, f)) {n : Nat} {mo : Moment β σ}
    (hmo : m.moment index args w n = some mo) (k : Nat) :
    m.moment index args w (n + k) = some ((Moment.step (m.context module) f args)^[k] mo) := by
  rw [moment_of_runnable h] at hmo ⊢
  rw [Nat.add_comm, Function.iterate_add_apply, Option.some.inj hmo]

theorem moment_spec {n : Nat} {mo : Moment β σ} (h : m.moment index args w n = some mo) :
    ∃ module f, m.runnable index args.size = .ok (module, f) ∧ mo = (Moment.step (m.context module) f args)^[n]
      (Moment.start m.config.loopCount.toNat (m.startState f index w)) := by
  cases hr : m.runnable index args.size with
  | error e =>
    rw [moment, hr] at h
    cases h
  | ok mf =>
    obtain ⟨module, f⟩ := mf
    rw [moment_of_runnable hr] at h
    exact ⟨module, f, rfl, (Option.some.inj h).symm⟩

theorem runWith_of_runnable (h : m.runnable index args.size = .ok (module, f)) :
    m.runWith index args w =
      m.outcome f
        (iterate (m.context module) f args m.config.loopCount.toNat 0 0 (m.startState f index w)).1
        (iterate (m.context module) f args m.config.loopCount.toNat 0 0 (m.startState f index w)).2 := by
  have hstart : m.startState f index w = ⟨m.stack, m.stats, (w.log (.started f.name index
      (m.context module).convention m.config.loopCount.toNat)).events, w.kept, 0⟩ := rfl
  rw [runWith, h, hstart]
  dsimp only [World.log]
  cases iterate (m.context module) f args m.config.loopCount.toNat 0 0 _ with
  | mk r s => cases r <;> rfl

theorem outcome_fst (m : Machine β σ) (f : Function β σ) (r : Except RuntimeError Word) (s : CallState σ) :
    (m.outcome f r s).1 = r.mapError (.runtime f.name) := by
  cases r <;> rfl

theorem outcome_machine (m : Machine β σ) (f : Function β σ) (r : Except RuntimeError Word) (s : CallState σ) :
    (m.outcome f r s).2.1 = { m with stack := s.stack, stats := s.stats } := by
  cases r <;> rfl

theorem outcome_kept (m : Machine β σ) (f : Function β σ) (r : Except RuntimeError Word) (s : CallState σ) :
    (m.outcome f r s).2.2.kept = s.kept := by
  cases r <;> rfl

/-- **A run that is not refused comes to its end.** -/
theorem exists_moment_ended (w : World σ) (h : m.runnable index args.size = .ok (module, f)) :
    ∃ n mo r, m.moment index args w n = some mo ∧ mo.stage = .ended r := by
  obtain ⟨mo, ⟨n, hn⟩, hstage, -⟩ := Moment.leads_ended (m.context module) f args
    m.config.loopCount.toNat 0 0 (Moment.start m.config.loopCount.toNat (m.startState f index w)) rfl
  exact ⟨n, mo, _, by rw [moment_of_runnable h, hn], hstage⟩

/-- **What `runWith` answers and leaves is read off the moment that is over.** -/
theorem runWith_of_ended {n : Nat} {mo : Moment β σ} {r : Except RuntimeError Word}
    (h : m.runnable index args.size = .ok (module, f)) (hmo : m.moment index args w n = some mo)
    (hr : mo.stage = .ended r) : m.runWith index args w = m.outcome f r mo.state := by
  obtain ⟨mo', ⟨n', hn'⟩, hstage, hstate⟩ := Moment.leads_ended (m.context module) f args
    m.config.loopCount.toNat 0 0 (Moment.start m.config.loopCount.toNat (m.startState f index w)) rfl
  rw [moment_of_runnable h] at hmo
  obtain rfl := Option.some.inj hmo
  have hended := hstage
  rw [← hn'] at hended
  have hsame := Moment.ended_unique hr hended
  rw [hn'] at hsame
  rw [hsame] at hr ⊢
  rw [Stage.ended.inj (hr.symm.trans hstage), runWith_of_runnable h, hstate]
  rfl

/-- **Every moment of a run leads to the last one**, off which is read what `runWith` answers and leaves. -/
theorem exists_last (h : m.runnable index args.size = .ok (module, f)) (w : World σ) (n : Nat) :
    ∃ N last r, n ≤ N ∧ m.moment index args w N = some last ∧ last.stage = .ended r ∧
      m.runWith index args w = m.outcome f r last.state := by
  obtain ⟨N, last, r, hlast, hr⟩ := exists_moment_ended w h
  have hstays : m.moment index args w (N + n) = some last := by
    rw [moment_add h hlast, Moment.iterate_step_ended hr]
  exact ⟨N + n, last, r, Nat.le_add_left _ _, hstays, hr, runWith_of_ended h hlast hr⟩

end Machine
end MixedMode
