import MixedMode.Proofs.Chain
import MixedMode.Proofs.Counterpart
import MixedMode.Proofs.StackEffect
/-!
# CallPaths — two ways to call a function

A body may push the arguments of a call, call, and pop the result, or it may hold the arguments and let `callWith` do
the rest.  Where there is room for both, the callee is placed just the same: the same entry in the same state
(`Frame.placeCall_pushed`).  So its body runs just the same, and what comes after it cancels out
(`Frame.runIn_callPushed`).
-/
namespace MixedMode

variable {β σ α γ : Type}

namespace Action

/-- Push the arguments in order, call, and take the result off the stack. -/
def callPushed (index : Nat) (args : Array Word) : Action σ Word := do
  args.toList.forM push
  call index
  pop

/-- Run a stretch of a body in a frame. -/
def runIn (cx : Context β σ) (enter : Enter β σ) (a : Action σ α) (f : Frame β σ) (s : CallState σ) :
    Except RuntimeError α × Frame β σ × CallState σ :=
  Program.run (cx.perform enter) a.run f s

variable (cx : Context β σ) (enter : Enter β σ)

/-- A stretch that is followed by another one: that one is run if the first does not fail. -/
theorem runIn_bind (a : Action σ α) (k : α → Action σ γ) (f : Frame β σ) (s : CallState σ) :
    runIn cx enter (a >>= k) f s =
      match runIn cx enter a f s with
      | (.ok x, f, s)    => runIn cx enter (k x) f s
      | (.error e, f, s) => (.error e, f, s) := by
  refine (Program.run_bind (cx.perform enter) (ExceptT.bindCont k) a.run f s).trans ?_
  unfold runIn
  rcases Program.run (cx.perform enter) a.run f s with ⟨r, f', s'⟩
  cases r with
  | ok x => rfl
  | error e => rfl

theorem runIn_push (word : Word) (f : Frame β σ) (s : CallState σ) :
    runIn cx enter (push word) f s = ((s.onStack (·.push word)).1, f, (s.onStack (·.push word)).2) := rfl

theorem runIn_pop (f : Frame β σ) (s : CallState σ) : runIn cx enter pop f s = ((f.pop s).1, f, (f.pop s).2) := rfl

theorem runIn_call (index : Nat) (f : Frame β σ) (s : CallState σ) :
    runIn cx enter (call index) f s = ((f.call cx enter index s).1, f, (f.call cx enter index s).2) := rfl

theorem runIn_callWith (index : Nat) (args : Array Word) (f : Frame β σ) (s : CallState σ) :
    runIn cx enter (callWith index args) f s =
      ((Frame.callWith cx enter index args s).1, f, (Frame.callWith cx enter index args s).2) := rfl

/-- Words that find room are pushed in order. -/
theorem runIn_pushes (f : Frame β σ) : ∀ (ws : List Word) (s : CallState σ),
    s.stack.depth + ws.length ≤ s.stack.limit →
    ∃ t, runIn cx enter (ws.forM push : Action σ PUnit) f s = (.ok (), f, t) ∧
      t.stack.words = s.stack.words ++ ws ∧ t.stack.limit = s.stack.limit ∧ t = { s with stack := t.stack }
  | [], s, _              => ⟨s, rfl, (List.append_nil _).symm, rfl, rfl⟩
  | word :: ws, s, hroom => by
    rw [List.length_cons] at hroom
    have hfree : s.stack.depth < s.stack.limit := by omega
    have hwords := OperandStack.words_push hfree word
    have hlimit := OperandStack.limit_push s.stack word
    have hdepth : (s.stack.push word).2.depth = s.stack.depth + 1 := by
      rw [OperandStack.depth_eq_length, hwords, List.length_append]
      rfl
    have hroom' : (s.stack.push word).2.depth + ws.length ≤ (s.stack.push word).2.limit := by
      rw [hdepth, hlimit]
      omega
    obtain ⟨t, hrun, htwords, htlimit, hrest⟩ := runIn_pushes f ws (s.onStack (·.push word)).2 hroom'
    refine ⟨t, ?_, ?_, htlimit.trans hlimit, hrest⟩
    · show runIn cx enter (push word >>= fun _ => ws.forM push : Action σ PUnit) f s = _
      rw [runIn_bind, runIn_push, CallState.onStack_fst, (OperandStack.push_of_lt hfree word).1]
      exact hrun
    · rw [htwords, CallState.onStack_snd, hwords, List.append_assoc]
      rfl

end Action

section

variable {cx : Context β σ} {enter : Enter β σ} {f : Frame β σ} {s t : CallState σ}

namespace Frame

/-- A word that was pushed is popped, and then all is as it was. -/
theorem pop_push (hbase : f.base ≤ s.stack.depth) (hfree : s.stack.depth < s.stack.limit) (w : Word) :
    (s.onStack (·.push w)).1 = .ok () ∧ f.pop (s.onStack (·.push w)).2 = (.ok w, s) := by
  refine ⟨(OperandStack.push_of_lt hfree w).1, ?_⟩
  have havailable : f.available (s.stack.push w).2 ≠ 0 := by
    rw [available, OperandStack.depth_eq_length, OperandStack.words_push hfree, List.length_append,
      List.length_singleton, ← OperandStack.depth_eq_length]
    omega
  unfold pop
  rw [CallState.onStack_snd, if_neg havailable, ← Prod.eta (CallState.onStack _ _), CallState.onStack_fst,
    CallState.onStack_snd, OperandStack.pop_push hfree]

variable {index : Nat} {args : Array Word} {callee : Function β σ}

/-- A call of a known function that finds its arguments places them. -/
theorem exists_placeCall (hcallee : cx.module.function? index = some callee)
    (harity : callee.arity ≤ f.available s.stack) :
    ∃ entry s', f.placeCall cx index s = (.ok entry, s') ∧
      Entry.Placed cx.convention callee (s.stack.words.drop (s.stack.depth - callee.arity))
        (s.stack.words.take (s.stack.depth - callee.arity)) s s' entry := by
  rcases placeCall_cases cx f index s with
    ⟨hnone, -⟩ | ⟨callee', hsome, hmissing, -⟩ | ⟨callee', entry, s', hsome, -, hplace, hp⟩
  · rw [hcallee] at hnone
    cases hnone
  · obtain rfl := Option.some.inj (hcallee.symm.trans hsome)
    exact absurd harity (Nat.not_le_of_lt hmissing)
  · obtain rfl := Option.some.inj (hcallee.symm.trans hsome)
    exact ⟨entry, s', hplace, hp⟩

/-- So does one that is given as many as it takes, and has room for them. -/
theorem exists_placeCallWith (hcallee : cx.module.function? index = some callee) (hcount : args.size = callee.arity)
    (hroom : s.stack.depth + args.size ≤ s.stack.limit) :
    ∃ entry s', placeCallWith cx index args s = (.ok entry, s') ∧
      Entry.Placed cx.convention callee args.toList s.stack.words s s' entry := by
  rcases placeCallWith_cases cx index args s with
    ⟨hnone, -⟩ | ⟨callee', hsome, hwrong, -⟩ | ⟨callee', -, -, -, hfull, -⟩ |
    ⟨callee', entry, s', hsome, -, -, hplace, hp⟩
  · rw [hcallee] at hnone
    cases hnone
  · obtain rfl := Option.some.inj (hcallee.symm.trans hsome)
    exact absurd hcount hwrong
  · exact absurd hroom (Nat.not_le_of_lt hfull)
  · obtain rfl := Option.some.inj (hcallee.symm.trans hsome)
    exact ⟨entry, s', hplace, hp⟩

/-- **The callee is placed just the same** whether its arguments were pushed or are held by the caller. -/
theorem placeCall_pushed (cx : Context β σ) (hcallee : cx.module.function? index = some callee)
    (hcount : args.size = callee.arity) (hbase : f.base ≤ s.stack.depth)
    (hroom : s.stack.depth + args.size ≤ s.stack.limit) (hwords : t.stack.words = s.stack.words ++ args.toList)
    (hlimit : t.stack.limit = s.stack.limit) (hrest : t = { s with stack := t.stack }) :
    ∃ entry s', f.placeCall cx index t = (.ok entry, s') ∧ placeCallWith cx index args s = (.ok entry, s') ∧
      Entry.Placed cx.convention callee args.toList s.stack.words s s' entry := by
  have hdepth : t.stack.depth = s.stack.depth + callee.arity := by
    rw [OperandStack.depth_eq_length, hwords, List.length_append, ← hcount]
    rfl
  have hslot : t.stack.depth - callee.arity = s.stack.words.length := by
    rw [hdepth, Nat.add_sub_cancel]
    rfl
  have harity : callee.arity ≤ f.available t.stack := by
    unfold available
    omega
  obtain ⟨entry, s₁, hplace, hp⟩ := exists_placeCall hcallee harity
  obtain ⟨entry', s₂, hplace', hp'⟩ := exists_placeCallWith hcallee hcount hroom
  rw [hslot, hwords, List.drop_left, List.take_left] at hp
  obtain rfl := hp'.entry_eq hp rfl
  have hstack : s₁.stack = s₂.stack :=
    OperandStack.ext_words (hp.words.trans hp'.words.symm) (hp.limit.trans (hlimit.trans hp'.limit.symm))
  have hstate : s₁ = s₂ := by
    rw [hp.rest, hp'.rest, hrest, hstack]
  exact ⟨entry, s₂, hstate ▸ hplace, hplace', hp'⟩

/-- **Pushing the arguments, calling and popping the result is calling on them with `callWith`.** -/
theorem runIn_callPushed (he : enter.Keeps) {entry : Entry β σ} {s' : CallState σ}
    (hpushes : Action.runIn cx enter (args.toList.forM Action.push : Action σ PUnit) f s = (.ok (), f, t))
    (hplace : f.placeCall cx index t = (.ok entry, s')) (hplace' : placeCallWith cx index args s = (.ok entry, s'))
    (hp : Entry.Placed cx.convention callee args.toList s.stack.words s s' entry) (hbase : f.base ≤ s.stack.depth)
    (hfree : s.stack.depth < s.stack.limit) :
    Action.runIn cx enter (Action.callPushed index args) f s =
      Action.runIn cx enter (Action.callWith index args) f s := by
  obtain ⟨-, hwords, hlimit⟩ := he.leave_placed hp
  have hstack : (enter.leave entry s').2.stack = s.stack := OperandStack.ext_words hwords hlimit
  rw [Action.callPushed, Action.runIn_bind, hpushes, Action.runIn_callWith]
  dsimp only
  rw [Action.runIn_bind, Action.runIn_call, call, hplace, callWith, hplace']
  dsimp only
  rw [← Prod.eta (enter.leave entry s')]
  cases (enter.leave entry s').1 with
  | error e => rfl
  | ok w =>
    -- the stack is the caller's again, so there is room for the result, and it is the caller's to pop
    rw [← hstack] at hbase hfree
    obtain ⟨hpush, hpop⟩ := pop_push hbase hfree w
    dsimp only
    rw [hpush]
    dsimp only
    rw [Action.runIn_pop, hpop]

end Frame

end

/-- **The two ways to call a function agree**, at every moment of a run, for the frame that is active then, with any
bound on the recursion.  Take as many words as the callee has parameters, with room for them on the stack and for
the result.  Once they are pushed, `call` places its callee as `callWith` does: the same entry in the same state, so the
same body runs, in the same frame, or both are refused.  And both ways end the same: with the same word or error, the
stack as it was, and the same counters, log, memory and nesting counter. -/
theorem Machine.call_paths_agree {m : Machine β σ} {start n : Nat} {given : Array Word} {w : World σ} {mo : Moment β σ}
    (hmo : m.moment start given w n = some mo) {more next : Nat} {active : OpenFrame β σ} {body : Body σ}
    {callers : List (Caller β σ)} (hstage : mo.stage = .inside more next active body callers) {module : Module β σ}
    {index : Nat} {callee : Function β σ} (hcallee : module.function? index = some callee) {args : Array Word}
    (hcount : args.size = callee.arity) (hroom : mo.state.stack.depth + args.size ≤ mo.state.stack.limit)
    (hfree : mo.state.stack.depth < mo.state.stack.limit) (levels : Nat) :
    ∃ (pushed entered : CallState σ) (entry : Entry β σ),
      Action.runIn (m.context module) ((m.context module).enter levels)
        (args.toList.forM Action.push : Action σ PUnit) active.frame mo.state = (.ok (), active.frame, pushed) ∧
      pushed.stack.words = mo.state.stack.words ++ args.toList ∧
      active.frame.placeCall (m.context module) index pushed = (.ok entry, entered) ∧
      Frame.placeCallWith (m.context module) index args mo.state = (.ok entry, entered) ∧ entry.function = callee ∧
      Action.runIn (m.context module) ((m.context module).enter levels) (Action.callPushed index args) active.frame
          mo.state =
        Action.runIn (m.context module) ((m.context module).enter levels) (Action.callWith index args) active.frame
          mo.state ∧
      (Action.runIn (m.context module) ((m.context module).enter levels) (Action.callWith index args) active.frame
        mo.state).2.2.stack = mo.state.stack := by
  have hmem : active ∈ mo.frames := by
    rw [Moment.frames_of_stage hstage]
    exact List.mem_cons_self
  obtain ⟨hsound, hbelow⟩ := (Machine.sound_moment hmo).chain.mem active hmem
  have hbase := (hsound.seated hbelow).1
  have hkeeps := (m.context module).enter_keeps levels
  obtain ⟨pushed, hpushes, hwords, hlimit, hrest⟩ :=
    Action.runIn_pushes (m.context module) ((m.context module).enter levels) active.frame args.toList mo.state hroom
  obtain ⟨entry, entered, hplace, hplace', hp⟩ :=
    Frame.placeCall_pushed (m.context module) hcallee hcount hbase hroom hwords hlimit hrest
  refine ⟨pushed, entered, entry, hpushes, hwords, hplace, hplace', hp.function, ?_, ?_⟩
  · exact Frame.runIn_callPushed hkeeps hpushes hplace hplace' hp hbase hfree
  · exact Frame.stack_callWith (m.context module) hkeeps index args mo.state

/-- The difference of 5 and 3, taken both ways by a function that is itself called from outside. -/
theorem Machine.call_paths_agree_difference :
    ∃ (mo : Moment (Body Unit) Unit) (active : OpenFrame (Body Unit) Unit) (body : Body Unit)
      (cx : Context (Body Unit) Unit),
      (ofPrograms .passParameter 16 samplePrograms (· == 0)).moment 1 #[9] ⟨#[], ()⟩ 1 = some mo ∧
      mo.stage = .inside 0 0 active body [] ∧
      Action.runIn cx (cx.enter 1) (Action.callPushed 0 #[5, 3]) active.frame mo.state =
        Action.runIn cx (cx.enter 1) (Action.callWith 0 #[5, 3]) active.frame mo.state ∧
      (Action.runIn cx (cx.enter 1) (Action.callWith 0 #[5, 3]) active.frame mo.state).1 = .ok 2 := by
  refine ⟨_, _, _, (ofPrograms .passParameter 16 samplePrograms (· == 0)).context
    (.ofPrograms "programs" samplePrograms (· == 0)), rfl, rfl, ?_, ?_⟩
  · obtain ⟨_, _, _, -, -, -, -, -, hagree, -⟩ := @call_paths_agree _ _
      (ofPrograms .passParameter 16 samplePrograms (· == 0)) 1 1 #[9] ⟨#[], ()⟩ _ rfl _ _ _ _ _ rfl
      (.ofPrograms "programs" samplePrograms (· == 0)) 0 _ rfl #[5, 3] rfl (by decide) (by decide) 1
    exact hagree
  · rfl

end MixedMode
