import MixedMode.Proofs.LifeCycle
import MixedMode.Proofs.Lockstep
/-!
# Limits — a run under larger limits

The limits are read in three places, each before anything has changed: where a word is pushed, where words are placed
on the stack, and where a callee is entered.  So a run that was refused in none of them is the same run under larger
limits, step by step (`Moment.Roomier.step`).  Where no body catches an error, a refusal is what the run ends in
(`Moment.Strict.step`), so a run that answers a word was refused nothing (`Machine.limits_are_guards`).
-/
namespace MixedMode

variable {β σ α : Type}

/-! ## Meeting a limit -/

def RuntimeError.isLimit : RuntimeError → Bool
  | stackOverflow _ | recursionLimit _ => true
  | _                                  => false

namespace Answered

def refused (a : Answered σ) : Bool := a.refusal?.isSome

def meetsLimit (a : Answered σ) : Bool := a.refusal?.any RuntimeError.isLimit

theorem refused_of_meetsLimit {a : Answered σ} (h : a.meetsLimit = true) : a.refused = true := by
  unfold meetsLimit at h
  unfold refused
  cases hr : a.refusal? with
  | none => rw [hr] at h; cases h
  | some e => rfl

end Answered

def Advance.meetsLimit : Advance β σ → Bool
  | .answered a _ _ _ => a.meetsLimit
  | .placed ..        => false

/-- An operation so far, or an invocation, has reported that a limit was reached. -/
def Moment.meetsLimit (m : Moment β σ) : Bool :=
  m.answers.any Answered.meetsLimit ||
    match m.stage with
    | .ended (.error e) => e.isLimit
    | _                 => false

/-- Some operation or invocation of the run reports that a limit was reached. -/
def Machine.MeetsLimit (m : Machine β σ) (index : Nat) (args : Array Word) (w : World σ) : Prop :=
  ∃ n mo, m.moment index args w n = some mo ∧ mo.meetsLimit = true

theorem Waiting.refused_resume_error (waiting : Waiting σ) (e : RuntimeError) (s : CallState σ) :
    (waiting.resume (.error e) s).1.refused = true := by
  rw [Answered.refused, waiting.refusal?_resume_error]
  rfl

theorem Waiting.meetsLimit_resume_error (waiting : Waiting σ) {e : RuntimeError} (he : e.isLimit = true)
    (s : CallState σ) : (waiting.resume (.error e) s).1.meetsLimit = true := by
  rw [Answered.meetsLimit, waiting.refusal?_resume_error]
  exact he

namespace Moment

variable {cx : Context β σ} {f : Function β σ} {args : Array Word} {m : Moment β σ}

theorem meetsLimit_leave_error (m : Moment β σ) (more next floor : Nat) {e : RuntimeError} (he : e.isLimit = true)
    (s : CallState σ) (callers : List (Caller β σ)) :
    (m.leave more next floor (.error e) s callers).meetsLimit = true := by
  cases callers with
  | nil => simp [leave, meetsLimit, he]
  | cons c callers => simp [leave, meetsLimit, c.waiting.meetsLimit_resume_error he]

/-- What has met a limit has met it for good. -/
theorem meetsLimit_step (cx : Context β σ) (f : Function β σ) (args : Array Word) (h : m.meetsLimit = true) :
    (m.step cx f args).meetsLimit = true := by
  rcases Bool.or_eq_true_iff.1 h with h | h
  · obtain ⟨a, ha, hmeets⟩ := List.any_eq_true.1 h
    have hlater := List.any_eq_true.2 ⟨a, (extends_step cx f args m).answers.subset ha, hmeets⟩
    rw [meetsLimit, hlater, Bool.true_or]
  · split at h
    · rename_i e hstage
      rw [step_ended hstage, meetsLimit, hstage, Bool.or_eq_true_iff]
      exact .inr h
    · cases h

theorem meetsLimit_iterate (cx : Context β σ) (f : Function β σ) (args : Array Word) (h : m.meetsLimit = true)
    (n : Nat) : ((step cx f args)^[n] m).meetsLimit = true :=
  Function.Iterate.rec (fun m : Moment β σ => m.meetsLimit = true) h (fun _ => meetsLimit_step cx f args) n

end Moment

/-- A run that is over has met what it ever meets. -/
theorem Machine.not_meetsLimit_of_ended {m : Machine β σ} {index : Nat} {args : Array Word} {w : World σ} {n : Nat}
    {mo : Moment β σ} {r : Except RuntimeError Word} (hmo : m.moment index args w n = some mo)
    (hr : mo.stage = .ended r) (h : mo.meetsLimit = false) : ¬ m.MeetsLimit index args w := by
  rintro ⟨n', mo', hmo', hmeets⟩
  obtain ⟨module, f, hrun, rfl⟩ := moment_spec hmo
  rw [moment_of_runnable hrun] at hmo'
  obtain rfl := Option.some.inj hmo'
  have hlater := Moment.meetsLimit_iterate (m.context module) f args hmeets n
  rw [← Function.iterate_add_apply, Nat.add_comm, Function.iterate_add_apply, Moment.iterate_step_ended hr] at hlater
  rw [h] at hlater
  cases hlater

/-! ## Two states, the second with more room -/

/-- The second state is the first one on a stack with at least as much room. -/
structure CallState.Roomier (s s' : CallState σ) : Prop where
  words : s'.stack.words = s.stack.words
  limit : s.stack.limit ≤ s'.stack.limit
  stats : s'.stats = s.stats
  events : s'.events = s.events
  kept : s'.kept = s.kept
  nesting : s'.nesting = s.nesting

theorem OperandStack.pop_of_words_eq {s s' : OperandStack} (h : s'.words = s.words) :
    s'.pop.1 = s.pop.1 ∧ s'.pop.2.words = s.pop.2.words := by
  obtain ⟨slots, limit, hle⟩ := s
  obtain ⟨slots', limit', hle'⟩ := s'
  obtain rfl : slots' = slots := Array.toList_inj.1 h
  unfold pop
  dsimp only
  split <;> exact ⟨rfl, rfl⟩

namespace CallState.Roomier

variable {s s' : CallState σ}

theorem depth (h : s.Roomier s') : s'.stack.depth = s.stack.depth := congrArg List.length h.words

theorem available (h : s.Roomier s') (f : Frame β σ) : f.available s'.stack = f.available s.stack := by
  rw [Frame.available, Frame.available, h.depth]

theorem push (h : s.Roomier s') {w : Word}
    (hlimit : (failure? (s.onStack (·.push w)).1).any RuntimeError.isLimit = false) :
    (s'.onStack (·.push w)).1 = (s.onStack (·.push w)).1 ∧
      (s.onStack (·.push w)).2.Roomier (s'.onStack (·.push w)).2 := by
  by_cases hlt : s.stack.depth < s.stack.limit
  · have hlt' : s'.stack.depth < s'.stack.limit := by
      rw [h.depth]
      exact Nat.lt_of_lt_of_le hlt h.limit
    rw [CallState.onStack_fst, CallState.onStack_fst, CallState.onStack_snd, CallState.onStack_snd]
    refine ⟨?_, ?_, ?_, h.stats, h.events, h.kept, h.nesting⟩
    · rw [(OperandStack.push_of_lt hlt w).1, (OperandStack.push_of_lt hlt' w).1]
    · rw [OperandStack.words_push hlt, OperandStack.words_push hlt', h.words]
    · rw [OperandStack.limit_push, OperandStack.limit_push]
      exact h.limit
  · rw [CallState.failure?_push (Nat.le_of_not_lt hlt)] at hlimit
    cases hlimit

theorem pop (h : s.Roomier s') (f : Frame β σ) :
    (f.pop s').1 = (f.pop s).1 ∧ (f.pop s).2.Roomier (f.pop s').2 := by
  unfold Frame.pop
  rw [h.available]
  split
  · exact ⟨rfl, h⟩
  · obtain ⟨hr, hw⟩ := OperandStack.pop_of_words_eq h.words
    rw [CallState.onStack_fst, CallState.onStack_fst, CallState.onStack_snd, CallState.onStack_snd]
    refine ⟨hr, hw, ?_, h.stats, h.events, h.kept, h.nesting⟩
    rw [OperandStack.limit_pop, OperandStack.limit_pop]
    exact h.limit

theorem truncate (h : s.Roomier s') (depth : Nat) : (s.truncate depth).Roomier (s'.truncate depth) := by
  refine ⟨?_, h.limit, h.stats, h.events, h.kept, h.nesting⟩
  rw [truncate_eq, truncate_eq, OperandStack.words_truncate, OperandStack.words_truncate, h.words]

theorem countEntry (h : s.Roomier s') (c : Convention) (f : Function β σ) (target : CallTarget σ) :
    (s.countEntry c f target).Roomier (s'.countEntry c f target) := by
  unfold CallState.countEntry
  rw [h.stats, h.events]
  repeat' split
  all_goals exact ⟨h.words, h.limit, rfl, rfl, h.kept, h.nesting⟩

theorem deeper (h : s.Roomier s') : s.deeper.Roomier s'.deeper :=
  ⟨h.words, h.limit, h.stats, h.events, h.kept, congrArg (· + 1) h.nesting⟩

theorem shallower (h : s.Roomier s') : s.shallower.Roomier s'.shallower :=
  ⟨h.words, h.limit, h.stats, h.events, h.kept, congrArg (· - 1) h.nesting⟩

theorem arg (h : s.Roomier s') (f : Frame β σ) (index : Nat) : f.arg s'.stack index = f.arg s.stack index := by
  simp only [Frame.arg, OperandStack.get?_eq, h.words]

theorem peek (h : s.Roomier s') (f : Frame β σ) (distance : Nat) :
    f.peek s'.stack distance = f.peek s.stack distance := by
  simp only [Frame.peek, OperandStack.peek_eq, h.words, h.available]

/-- Arguments that are placed on both stacks are placed alike. -/
theorem placed (h : s.Roomier s') {c : Convention} {f : Function β σ} {passed under : List Word} {t t' : CallState σ}
    {entry entry' : Entry β σ} (hp : Entry.Placed c f passed under s t entry)
    (hp' : Entry.Placed c f passed under s' t' entry') : entry' = entry ∧ t.Roomier t' := by
  have hrest : t = { s with stack := t.stack } := hp.rest
  have hrest' : t' = { s' with stack := t'.stack } := hp'.rest
  refine ⟨hp.entry_eq hp' rfl, ?_, ?_, ?_, ?_, ?_, ?_⟩
  · rw [hp.words, hp'.words]
  · rw [hp.limit, hp'.limit]
    exact h.limit
  · rw [hrest, hrest']
    exact h.stats
  · rw [hrest, hrest']
    exact h.events
  · rw [hrest, hrest']
    exact h.kept
  · rw [hp.nesting, hp'.nesting, h.nesting]

end CallState.Roomier

/-! ## One operation -/

/-- An operation comes to the same in both runs, and leaves the second with as much more room. -/
inductive Advance.Roomier : Advance β σ → Advance β σ → Prop
  | answered {a : Answered σ} {body : Body σ} {frame : Frame β σ} {s s' : CallState σ} (hs : s.Roomier s') :
      Roomier (.answered a body frame s) (.answered a body frame s')
  | placed {entry : Entry β σ} {passed under : List Word} {waiting : Waiting σ} {s s' : CallState σ}
      (hs : s.Roomier s') : Roomier (.placed entry passed under waiting s) (.placed entry passed under waiting s')

namespace Context

variable {s s' : CallState σ}

theorem advance_call_roomier (cx : Context β σ) (f : Frame β σ) (h : s.Roomier s') (index : Nat)
    (k : Except RuntimeError Unit → Body σ) :
    (cx.advance f s (.call index) k).Roomier (cx.advance f s' (.call index) k) := by
  have hdepth := h.depth
  simp only [advance, Frame.placeCall, h.available, hdepth]
  cases hc : cx.module.function? index with
  | none => exact .answered h
  | some callee =>
    by_cases ha : f.available s.stack < callee.arity
    · simp only [if_pos ha]
      exact .answered h
    · have hp := Entry.placed_fromStack cx.convention callee (Nat.sub_le s.stack.depth callee.arity)
      have hp' := Entry.placed_fromStack cx.convention callee (Nat.sub_le s'.stack.depth callee.arity)
      rw [hdepth, h.words] at hp'
      obtain ⟨hentry, hs⟩ := h.placed hp hp'
      simp only [if_neg ha, hentry, h.words]
      exact .placed hs

theorem advance_callWith_roomier (cx : Context β σ) (f : Frame β σ) (h : s.Roomier s') (index : Nat)
    (args : Array Word) (k : Except RuntimeError Word → Body σ)
    (hlimit : (cx.advance f s (.callWith index args) k).meetsLimit = false) :
    (cx.advance f s (.callWith index args) k).Roomier (cx.advance f s' (.callWith index args) k) := by
  simp only [advance, Frame.placeCallWith] at hlimit ⊢
  cases hc : cx.module.function? index with
  | none => exact .answered h
  | some callee =>
    rw [hc] at hlimit
    by_cases hcount : args.size = callee.arity
    · simp only [if_pos hcount] at hlimit ⊢
      rcases Entry.placed_fromWords cx.convention callee args s with ⟨entry, t, he, hp, hfits⟩ | ⟨he, -, -⟩
      · rcases Entry.placed_fromWords cx.convention callee args s' with ⟨entry', t', he', hp', -⟩ | ⟨-, hon, hfull⟩
        · rw [h.words] at hp'
          obtain ⟨rfl, hs⟩ := h.placed hp hp'
          simp only [he, he', h.words]
          exact .placed hs
        -- the stack with less room had enough of it
        · have := hfits hon
          have := h.limit
          have := h.depth
          omega
      · rw [he] at hlimit
        cases hlimit
    · simp only [if_neg hcount]
      exact .answered h

/-- **What meets no limit comes to the same where there is more room.** -/
theorem advance_roomier (cx : Context β σ) (f : Frame β σ) (h : s.Roomier s') (op : Op σ) (k : op.Answer → Body σ)
    (hlimit : (cx.advance f s op k).meetsLimit = false) : (cx.advance f s op k).Roomier (cx.advance f s' op k) := by
  cases op with
  | call index => exact advance_call_roomier cx f h index k
  | callWith index args => exact advance_callWith_roomier cx f h index args k hlimit
  | arg index =>
    simp only [advance, perform, h.arg]
    exact .answered h
  | push value =>
    obtain ⟨heq, hs⟩ := h.push hlimit
    simp only [advance, perform, heq]
    exact .answered hs
  | pop =>
    obtain ⟨heq, hs⟩ := h.pop f
    simp only [advance, perform, heq]
    exact .answered hs
  | peek distance =>
    simp only [advance, perform, h.peek]
    exact .answered h
  | depth =>
    simp only [advance, perform, h.depth]
    exact .answered h
  | memory =>
    simp only [advance, perform, h.kept]
    exact .answered h
  | keep kept => exact .answered ⟨h.words, h.limit, h.stats, h.events, rfl, h.nesting⟩
  | _ => exact .answered h

/-- How far the nesting counter may go makes no difference to an operation before its callee is entered. -/
theorem advance_withDepth (cx : Context β σ) (d : Nat) (f : Frame β σ) (s : CallState σ) (op : Op σ)
    (k : op.Answer → Body σ) : { cx with maxDepth := d }.advance f s op k = cx.advance f s op k := by
  cases op <;> rfl

end Context

theorem Waiting.resume_roomier (waiting : Waiting σ) (r : Except RuntimeError Word) {s s' : CallState σ}
    (h : s.Roomier s') (hlimit : (waiting.resume r s).1.meetsLimit = false) :
    (waiting.resume r s').1 = (waiting.resume r s).1 ∧ (waiting.resume r s').2.1 = (waiting.resume r s).2.1 ∧
      (waiting.resume r s).2.2.Roomier (waiting.resume r s').2.2 := by
  cases waiting with
  | call index next =>
    cases r with
    | error e => exact ⟨rfl, rfl, h⟩
    | ok w =>
      obtain ⟨heq, hs⟩ := h.push hlimit
      simp only [resume, heq]
      exact ⟨trivial, trivial, hs⟩
  | callWith index args next => exact ⟨rfl, rfl, h⟩

/-! ## One step -/

namespace Moment

/-- Two runs that have come equally far, the second with at least as much room on its stack. -/
structure Roomier (m m' : Moment β σ) : Prop where
  stage : m'.stage = m.stage
  entries : m'.entries = m.entries
  answers : m'.answers = m.answers
  state : m.state.Roomier m'.state

variable {cx : Context β σ} {f : Function β σ} {args : Array Word} {m m' : Moment β σ} {d : Nat}

theorem not_meetsLimit_of_mem (h : m.meetsLimit = false) {a : Answered σ} (ha : a ∈ m.answers) :
    a.meetsLimit = false := by
  rw [meetsLimit, Bool.or_eq_false_iff] at h
  exact Bool.eq_false_iff.2 (List.any_eq_false.1 h.1 a ha)

theorem Roomier.leave (h : m.Roomier m') (more next floor : Nat) (r : Except RuntimeError Word) {s s' : CallState σ}
    (hs : s.Roomier s') (callers : List (Caller β σ))
    (hlimit : (m.leave more next floor r s callers).meetsLimit = false) :
    (m.leave more next floor r s callers).Roomier (m'.leave more next floor r s' callers) := by
  have hcut := hs.truncate floor
  cases callers with
  | nil =>
    cases r with
    | error e => exact ⟨rfl, h.entries, h.answers, hcut⟩
    | ok w =>
      refine ⟨rfl, h.entries, h.answers, hcut.words, hcut.limit, hcut.stats, ?_, hcut.kept, hcut.nesting⟩
      exact congrArg (·.push (.iterated next w)) hs.events
  | cons c callers =>
    have hmem : (c.waiting.resume r (s.truncate floor)).1 ∈ (m.leave more next floor r s (c :: callers)).answers :=
      List.mem_cons_self ..
    obtain ⟨hanswer, hbody, hstate⟩ := c.waiting.resume_roomier r hcut (not_meetsLimit_of_mem hlimit hmem)
    simp only [Moment.leave, hanswer, hbody]
    exact ⟨rfl, h.entries, by rw [h.answers], hstate⟩

theorem Roomier.attempt (h : m.Roomier m') (hd : cx.maxDepth ≤ d) (more next : Nat) (entry : Entry β σ)
    (passed under : List Word) (callers : List (Caller β σ)) {s s' : CallState σ} (hs : s.Roomier s')
    (hlimit : (m.attempt cx more next entry passed under callers s).meetsLimit = false) :
    (m.attempt cx more next entry passed under callers s).Roomier
      (m'.attempt { cx with maxDepth := d } more next entry passed under callers s') := by
  unfold Moment.attempt at hlimit ⊢
  by_cases hlevels : s.nesting < cx.maxDepth
  · have hlevels' : s'.nesting < d := by
      rw [hs.nesting]
      exact Nat.lt_of_lt_of_le hlevels hd
    rw [if_pos hlevels, if_pos hlevels', hs.depth]
    exact ⟨rfl, by rw [h.entries], h.answers, (hs.countEntry _ _ _).deeper⟩
  · rw [if_neg hlevels, meetsLimit_leave_error _ _ _ _ rfl] at hlimit
    cases hlimit

/-- **A step that meets no limit is the same step under larger limits.** -/
theorem Roomier.step (h : m.Roomier m') (hd : cx.maxDepth ≤ d) (hlimit : (m.step cx f args).meetsLimit = false) :
    (m.step cx f args).Roomier (m'.step { cx with maxDepth := d } f args) := by
  have hstages := h.stage
  cases hstage : m.stage with
  | ended r =>
    rw [hstage] at hstages
    rw [step_ended hstage, step_ended hstages]
    exact h
  | between more next last =>
    rw [hstage] at hstages
    cases more with
    | zero =>
      rw [step_between_zero hstage, step_between_zero hstages]
      exact ⟨rfl, h.entries, h.answers, h.state⟩
    | succ more =>
      rcases Entry.placed_fromOutside cx.convention f args m.state with ⟨entry, s, he, hp, hfits⟩ | ⟨he, -⟩
      · rcases Entry.placed_fromOutside cx.convention f args m'.state with ⟨entry', s', he', hp', -⟩ | ⟨-, hfull⟩
        · rw [h.state.words] at hp'
          obtain ⟨rfl, hs⟩ := h.state.placed hp hp'
          rw [step_between_ok hstage he] at hlimit ⊢
          have hstep : m'.step { cx with maxDepth := d } f args = _ := step_between_ok hstages he'
          rw [hstep, h.state.words]
          exact h.attempt hd more next _ _ _ [] hs hlimit
        · have := h.state.limit
          have := h.state.depth
          omega
      · rw [step_between_error hstage he, meetsLimit, Bool.or_eq_false_iff] at hlimit
        cases hlimit.2
  | inside more next active body callers =>
    rw [hstage] at hstages
    cases body with
    | done r =>
      rw [step_done hstage] at hlimit ⊢
      rw [step_done hstages]
      exact h.leave more next _ r h.state.shallower callers hlimit
    | step op k =>
      have hadvance : (cx.advance active.frame m.state op k).meetsLimit = false := by
        cases ha : cx.advance active.frame m.state op k with
        | answered a body frame s =>
          rw [step_answered hstage ha] at hlimit
          exact not_meetsLimit_of_mem hlimit (List.mem_cons_self ..)
        | placed => rfl
      have hsame := cx.advance_roomier active.frame h.state op k hadvance
      rw [← cx.advance_withDepth d active.frame m'.state] at hsame
      generalize ha : cx.advance active.frame m.state op k = advance at hsame
      generalize ha' : { cx with maxDepth := d }.advance active.frame m'.state op k = advance' at hsame
      cases hsame with
      | answered hs =>
        rw [step_answered hstage ha, step_answered hstages ha']
        exact ⟨rfl, h.entries, by rw [h.answers], hs⟩
      | placed hs =>
        rw [step_placed hstage ha] at hlimit ⊢
        rw [step_placed hstages ha']
        exact h.attempt hd more next _ _ _ _ hs hlimit

theorem Roomier.iterate (h : m.Roomier m') (hd : cx.maxDepth ≤ d)
    (hlimit : ∀ n, ((Moment.step cx f args)^[n] m).meetsLimit = false) :
    ∀ n : Nat, ((Moment.step cx f args)^[n] m).Roomier ((Moment.step { cx with maxDepth := d } f args)^[n] m')
  | 0     => h
  | n + 1 => by
    have ih := h.iterate hd hlimit n
    have hnext := hlimit (n + 1)
    rw [Function.iterate_succ_apply'] at hnext ⊢
    rw [Function.iterate_succ_apply']
    exact ih.step hd hnext

theorem Roomier.meetsLimit_eq (h : m.Roomier m') : m'.meetsLimit = m.meetsLimit := by
  rw [meetsLimit, meetsLimit, h.answers, h.stage]

end Moment

/-! ## Bodies that catch nothing -/

/-- However its operations are answered, the program ends in an error. -/
def Program.Fails : Program σ (Except RuntimeError α) → Prop
  | .done r   => (failure? r).isSome = true
  | .step _ k => ∀ answer, (k answer).Fails

/-- Once an operation is refused the body is bound to fail; it may still do something before it does. -/
def Program.CatchesNothing : Body σ → Prop
  | .done _    => True
  | .step op k =>
    ∀ answer, (k answer).CatchesNothing ∧ ((⟨op, answer⟩ : Answered σ).refused = true → (k answer).Fails)

namespace Waiting

def Fails (waiting : Waiting σ) : Prop := ∀ r s, (waiting.resume r s).2.1.Fails

def CatchesNothing (waiting : Waiting σ) : Prop :=
  ∀ r s, (waiting.resume r s).2.1.CatchesNothing ∧
    ((waiting.resume r s).1.refused = true → (waiting.resume r s).2.1.Fails)

end Waiting

namespace Stage

def CatchesNothing : Stage β σ → Prop
  | .inside _ _ _ body callers => body.CatchesNothing ∧ ∀ c ∈ callers, c.waiting.CatchesNothing
  | _                          => True

/-- The run has failed, or some open body is bound to. -/
def Doomed : Stage β σ → Prop
  | .inside _ _ _ body callers => body.Fails ∨ ∃ c ∈ callers, c.waiting.Fails
  | .ended (.error _)          => True
  | _                          => False

end Stage

namespace Moment

/-- No open body catches an error, and a run in which an operation was refused is doomed. -/
structure Strict (m : Moment β σ) : Prop where
  catches : m.stage.CatchesNothing
  doomed : ∀ a ∈ m.answers, a.refused = true → m.stage.Doomed

variable {cx : Context β σ} {f : Function β σ} {args : Array Word} {m : Moment β σ}

theorem strict_leave (m : Moment β σ) (more next floor : Nat) (r : Except RuntimeError Word) (s : CallState σ)
    {callers : List (Caller β σ)} (hcatches : ∀ c ∈ callers, c.waiting.CatchesNothing)
    (hdoomed : ∀ a ∈ m.answers, a.refused = true → (failure? r).isSome = true ∨ ∃ c ∈ callers, c.waiting.Fails) :
    (m.leave more next floor r s callers).Strict := by
  cases callers with
  | nil =>
    cases r with
    | error e => exact ⟨trivial, fun _ _ _ => trivial⟩
    | ok w =>
      refine ⟨trivial, fun a ha hr => ?_⟩
      rcases hdoomed a ha hr with h | ⟨c, hc, -⟩
      · cases h
      · cases hc
  | cons c callers =>
    obtain ⟨hbody, hfails⟩ := hcatches c (List.mem_cons_self ..) r (s.truncate floor)
    refine ⟨⟨hbody, fun c' hc' => hcatches c' (List.mem_cons_of_mem _ hc')⟩, fun a ha hr => ?_⟩
    rcases List.mem_cons.1 ha with rfl | ha
    · exact .inl (hfails hr)
    · rcases hdoomed a ha hr with herror | ⟨c', hc', h⟩
      -- the callee failed, so the call of the innermost caller is refused too
      · cases r with
        | ok w => cases herror
        | error e => exact .inl (hfails (c.waiting.refused_resume_error e _))
      · rcases List.mem_cons.1 hc' with rfl | hc'
        · exact .inl (h r (s.truncate floor))
        · exact .inr ⟨c', hc', h⟩

theorem strict_attempt (cx : Context β σ) (m : Moment β σ) (more next : Nat) (entry : Entry β σ)
    (passed under : List Word) {callers : List (Caller β σ)} (s : CallState σ)
    (hbody : (cx.bodyOf entry.function entry.target).CatchesNothing)
    (hcatches : ∀ c ∈ callers, c.waiting.CatchesNothing)
    (hdoomed : ∀ a ∈ m.answers, a.refused = true → ∃ c ∈ callers, c.waiting.Fails) :
    (m.attempt cx more next entry passed under callers s).Strict := by
  unfold attempt
  split
  · exact ⟨⟨hbody, hcatches⟩, fun a ha hr => .inr (hdoomed a ha hr)⟩
  · exact strict_leave m more next _ _ s hcatches fun _ _ _ => .inl rfl

/-- **Where no body catches an error, a run that was refused an operation stays doomed.** -/
theorem Strict.step (h : m.Strict) (hbodies : cx.module.EachBody cx.interpreter Program.CatchesNothing)
    (hf : f ∈ cx.module.functions) : (m.step cx f args).Strict := by
  have hstep := stepped cx f args m
  have hcatches := h.catches
  have hdoomed := h.doomed
  generalize m.step cx f args = m' at hstep ⊢
  cases hstep with
  | ended => exact h
  | finished hstage =>
    rw [hstage] at hdoomed
    exact ⟨trivial, hdoomed⟩
  | refused => exact ⟨trivial, fun _ _ _ => trivial⟩
  | invoked hstage _ hplaced =>
    rw [hstage] at hdoomed
    refine strict_attempt cx m _ _ _ _ _ _ ?_ (fun c hc => by cases hc) fun a ha hr => (hdoomed a ha hr).elim
    rw [hplaced.target, hplaced.function]
    exact hbodies.bodyOf hf _
  | left hstage =>
    rw [hstage] at hcatches hdoomed
    exact strict_leave m _ _ _ _ _ hcatches.2 hdoomed
  | @answered _ _ _ _ _ _ _ body _ _ hstage hadvance =>
    rw [hstage] at hcatches hdoomed
    obtain ⟨answer, rfl, rfl⟩ := Context.advance_answered hadvance
    obtain ⟨hbody, hfails⟩ := hcatches.1 answer
    refine ⟨⟨hbody, hcatches.2⟩, fun a ha hr => ?_⟩
    rcases List.mem_cons.1 ha with rfl | ha
    · exact .inl (hfails hr)
    · exact (hdoomed a ha hr).imp_left fun hall => hall answer
  | @called _ _ active _ _ callers _ _ _ waiting _ hstage hadvance =>
    rw [hstage] at hcatches hdoomed
    obtain ⟨_, callee, hindex, -, hplaced, -, -⟩ := Context.advance_placed_spec hadvance
    have hresume := Context.advance_placed hadvance
    refine strict_attempt cx m _ _ _ _ _ _ ?_ (List.forall_mem_cons.2 ⟨fun r s => ?_, hcatches.2⟩) fun a ha hr => ?_
    · rw [hplaced.target, hplaced.function]
      exact hbodies.bodyOf (Module.mem_of_function? hindex) _
    · obtain ⟨answer, hanswer, hnext⟩ := hresume r s
      rw [hanswer, hnext]
      exact hcatches.1 answer
    · rcases hdoomed a ha hr with hall | ⟨c, hc, hfails⟩
      · refine ⟨⟨active, waiting⟩, List.mem_cons_self .., fun r s => ?_⟩
        obtain ⟨answer, -, hnext⟩ := hresume r s
        rw [hnext]
        exact hall answer
      · exact ⟨c, List.mem_cons_of_mem _ hc, hfails⟩

end Moment

/-! ## Two machines -/

namespace Machine

/-- Two machines that differ at most in their limits, the second with the larger ones. -/
structure Roomier (m m' : Machine β σ) : Prop where
  interpreter : m'.interpreter = m.interpreter
  module : m'.module = m.module
  callStyle : m'.config.callStyle = m.config.callStyle
  loopCount : m'.config.loopCount = m.config.loopCount
  ready : m'.ready = m.ready
  words : m'.stack.words = m.stack.words
  stats : m'.stats = m.stats
  maxStackSize : m.stack.limit ≤ m'.stack.limit
  maxRecursionDepth : m.config.limits.maxRecursionDepth ≤ m'.config.limits.maxRecursionDepth

variable {m m' : Machine β σ}

/-- Settings that differ in their limits only make machines that do. -/
theorem roomier_prepared {config : MachineConfig} {limits : LimitConfig}
    (hstack : config.limits.maxStackSize ≤ limits.maxStackSize)
    (hdepth : config.limits.maxRecursionDepth ≤ limits.maxRecursionDepth) (hvalid : config.validate = .ok ())
    (interpreter : Interpreter β σ) (w w' : World σ) :
    ((new config interpreter).prepare w).2.1.Roomier ((new { config with limits } interpreter).prepare w').2.1 := by
  obtain ⟨hloop, hstack', hdepth'⟩ := (MachineConfig.validate_eq_ok config).1 hvalid
  have hvalid' : { config with limits }.validate = .ok () := by
    refine (MachineConfig.validate_eq_ok _).2 ⟨hloop, ?_, ?_⟩
    · rintro (hz : limits.maxStackSize = 0)
      rw [hz] at hstack
      exact hstack' (UInt64.le_zero_iff.1 hstack)
    · rintro (hz : limits.maxRecursionDepth = 0)
      rw [hz] at hdepth
      exact hdepth' (UInt64.le_zero_iff.1 hdepth)
  rcases (new config interpreter).prepare_cases w with ⟨hready, -⟩ | ⟨e, -, he, -⟩ | ⟨-, -, hp⟩
  · cases hready
  · cases he.symm.trans hvalid
  · rcases (new { config with limits } interpreter).prepare_cases w' with ⟨hready, -⟩ | ⟨e, -, he, -⟩ | ⟨-, -, hp'⟩
    · cases hready
    · cases he.symm.trans hvalid'
    · rw [hp, hp']
      exact ⟨rfl, rfl, rfl, rfl, rfl, rfl, rfl, hstack, hdepth⟩

namespace Roomier

theorem load (h : m.Roomier m') (module : Module β σ) (w w' : World σ) :
    (m.load module w).2.1.Roomier (m'.load module w').2.1 := by
  unfold Machine.load
  rw [h.ready]
  cases m.ready with
  | false => exact h
  | true =>
    cases module.isEmpty with
    | true => exact h
    | false => exact { h with module := rfl, ready := rfl }

theorem runnable_eq (h : m.Roomier m') (index count : Nat) : m'.runnable index count = m.runnable index count := by
  rw [runnable, runnable, h.ready, h.module]

theorem context_eq (h : m.Roomier m') (module : Module β σ) :
    m'.context module =
      { m.context module with maxDepth := m'.config.limits.maxRecursionDepth.toNat } := by
  simp only [context, h.interpreter, h.callStyle]

theorem start (h : m.Roomier m') (f : Function β σ) (index : Nat) (w : World σ) :
    (Moment.start m.config.loopCount.toNat (m.startState f index w) : Moment β σ).Roomier
      (Moment.start m'.config.loopCount.toNat (m'.startState f index w)) := by
  rw [startState, startState, h.loopCount, h.callStyle]
  exact ⟨rfl, rfl, rfl, h.words, h.maxStackSize, h.stats, rfl, rfl, rfl⟩

/-- **A run that meets no limit is the same run on a machine with larger ones**, at every moment. -/
theorem moment (h : m.Roomier m') {index : Nat} {args : Array Word} {w : World σ}
    (hlimit : ¬ m.MeetsLimit index args w) (n : Nat) :
    Option.Rel (fun mo' mo => mo.Roomier mo') (m'.moment index args w n) (m.moment index args w n) := by
  cases hr : m.runnable index args.size with
  | error e =>
    rw [Machine.moment, Machine.moment, h.runnable_eq, hr]
    exact .none
  | ok run =>
    obtain ⟨module, f⟩ := run
    have hmo := moment_of_runnable (w := w) hr
    rw [hmo, moment_of_runnable ((h.runnable_eq _ _).trans hr), h.context_eq]
    exact .some ((h.start f index w).iterate h.maxRecursionDepth
      (fun n => Bool.eq_false_iff.2 fun hmeets => hlimit ⟨n, _, hmo n, hmeets⟩) n)

/-- It ends alike, then. -/
theorem runWith (h : m.Roomier m') {index : Nat} {args : Array Word} {w : World σ}
    (hlimit : ¬ m.MeetsLimit index args w) :
    (m'.runWith index args w).1 = (m.runWith index args w).1 ∧
    (m.runWith index args w).2.1.Roomier (m'.runWith index args w).2.1 ∧
    (m'.runWith index args w).2.2 = (m.runWith index args w).2.2 := by
  cases hr : m.runnable index args.size with
  | error e =>
    rw [Machine.runWith, Machine.runWith, h.runnable_eq, hr]
    exact ⟨rfl, h, rfl⟩
  | ok run =>
    obtain ⟨module, f⟩ := run
    obtain ⟨n, mo, r, hmo, hended⟩ := exists_moment_ended w hr
    have hsame := h.moment hlimit n
    rw [hmo] at hsame
    generalize hmo' : m'.moment index args w n = found at hsame
    cases hsame with
    | some hsame =>
      have hended' := hsame.stage.trans hended
      have hstate := hsame.state
      rw [runWith_of_ended hr hmo hended, runWith_of_ended ((h.runnable_eq _ _).trans hr) hmo' hended', outcome_machine,
        outcome_machine]
      refine ⟨?_, ?_, ?_⟩
      · rw [outcome_fst, outcome_fst]
      · exact { h with words := hstate.words, stats := hstate.stats, maxStackSize := hstate.limit }
      · cases r <;> simp only [outcome, hstate.events, hstate.kept, hstate.stats]

end Roomier

/-- **Where no body catches an error, a run that answers a word meets no limit.** -/
theorem not_meetsLimit_of_ok {index : Nat} {args : Array Word} {w : World σ} {module : Module β σ}
    (hmodule : m.module = some module) (hbodies : module.EachBody m.interpreter Program.CatchesNothing) {word : Word}
    (hword : (m.runWith index args w).1 = .ok word) : ¬ m.MeetsLimit index args w := by
  cases hr : m.runnable index args.size with
  | error e =>
    rw [runWith, hr] at hword
    cases hword
  | ok run =>
    obtain ⟨module', f⟩ := run
    obtain ⟨n, mo, r, hmo, hended⟩ := exists_moment_ended w hr
    rw [runWith_of_ended hr hmo hended, outcome_fst] at hword
    have hstrict : mo.Strict := by
      refine moment_induction (fun _ _ _ => ⟨trivial, fun a ha => by cases ha⟩) (fun M g mo' hrun hmo' => ?_) hmo
      obtain ⟨hmodule', hindex, -⟩ := runnable_spec hrun
      obtain rfl := Option.some.inj (hmodule.symm.trans hmodule')
      have hbodies : (m.context module).module.EachBody (m.context module).interpreter Program.CatchesNothing := hbodies
      exact hmo'.step hbodies (Module.mem_of_function? hindex)
    refine not_meetsLimit_of_ended hmo hended (Bool.or_eq_false_iff.2 ⟨?_, ?_⟩)
    · refine List.any_eq_false.2 fun a ha hmeets => ?_
      have hdoomed := hstrict.doomed a ha (Answered.refused_of_meetsLimit hmeets)
      rw [hended] at hdoomed
      cases r with
      | error e => cases hword
      | ok w => exact hdoomed
    · rw [hended]
      cases r with
      | error e => cases hword
      | ok w => rfl

/-- **Limits only guard.**  Let two machines differ in their limits only, and let no operation and no invocation of a
run on the first report that a limit was reached.  Then none does on the machine with the larger limits either; after
any number of steps that run has come equally far, with the same open frames, the same callees entered, the same
answers to the same operations, the same words on the stack and the same counters; and it answers the same word or
error, and leaves the same words, counters, log and kept value.  Where no body catches an error, a run that answers a
word answers the same word under any larger limits. -/
theorem limits_are_guards (h : m.Roomier m') (index : Nat) (args : Array Word) (w : World σ) :
    (¬ m.MeetsLimit index args w →
      ¬ m'.MeetsLimit index args w ∧
      (∀ n, Option.Rel (fun mo' mo => mo'.stage = mo.stage ∧ mo'.entries = mo.entries ∧ mo'.answers = mo.answers ∧
          mo'.state.stack.words = mo.state.stack.words ∧ mo'.state.stats = mo.state.stats ∧
          mo'.state.events = mo.state.events ∧ mo'.state.kept = mo.state.kept)
        (m'.moment index args w n) (m.moment index args w n)) ∧
      (m'.runWith index args w).1 = (m.runWith index args w).1 ∧
      (m'.runWith index args w).2.1.stack.words = (m.runWith index args w).2.1.stack.words ∧
      (m'.runWith index args w).2.1.stats = (m.runWith index args w).2.1.stats ∧
      (m'.runWith index args w).2.2 = (m.runWith index args w).2.2) ∧
    (∀ module, m.module = some module → module.EachBody m.interpreter Program.CatchesNothing →
      ∀ word, (m.runWith index args w).1 = .ok word → (m'.runWith index args w).1 = .ok word) := by
  refine ⟨fun hlimit => ?_, fun module hmodule hbodies word hword => ?_⟩
  · obtain ⟨hanswer, hleft, hworld⟩ := h.runWith hlimit
    refine ⟨?_, fun n => ?_, hanswer, hleft.words, hleft.stats, hworld⟩
    · rintro ⟨n, mo', hmo', hmeets⟩
      have hsame := h.moment hlimit n
      rw [hmo'] at hsame
      generalize hmo : m.moment index args w n = found at hsame
      cases hsame with
      | some hsame => exact hlimit ⟨n, _, hmo, hsame.meetsLimit_eq.symm.trans hmeets⟩
    · refine rel_imp ?_ (h.moment hlimit n)
      rintro mo' mo ⟨hstage, hentries, hanswers, hstate⟩
      exact ⟨hstage, hentries, hanswers, hstate.words, hstate.stats, hstate.events, hstate.kept⟩
  · exact (h.runWith (not_meetsLimit_of_ok hmodule hbodies hword)).1.trans hword

/-- Count down to 0 by a call on one less. -/
def descent : Body Unit :=
  .step (.arg 0) fun
    | .error e => .done (.error e)
    | .ok x    => if x = 0 then .done (.ok 0) else .step (.callWith 0 #[x - 1]) .done

theorem descent_catchesNothing : descent.CatchesNothing := by
  intro r
  cases r with
  | error e => exact ⟨trivial, fun _ => rfl⟩
  | ok x =>
    refine ⟨?_, fun h => by cases h⟩
    dsimp only
    split
    · trivial
    · exact fun r => ⟨trivial, id⟩

/-- A machine of these limits that has loaded the descent. -/
def ofDescent (limits : LimitConfig) : Machine (Body Unit) Unit :=
  (((new { limits } .ofPrograms).prepare ⟨#[], ()⟩).2.1.load
    (.ofPrograms "descent" #[(⟨"descent", 1, 0⟩, descent)] fun _ => false) ⟨#[], ()⟩).2.1

/-- Three levels and three words are just enough to descend from 2. -/
theorem limits_are_guards_descent :
    (ofDescent ⟨3, 3⟩).Roomier (ofDescent ⟨1024, 256⟩) ∧ ¬ (ofDescent ⟨3, 3⟩).MeetsLimit 0 #[2] ⟨#[], ()⟩ ∧
    (ofDescent ⟨3, 3⟩).MeetsLimit 0 #[3] ⟨#[], ()⟩ ∧
    ((ofDescent ⟨1024, 256⟩).runWith 0 #[2] ⟨#[], ()⟩).1 = .ok 0 ∧
    ((ofDescent ⟨1024, 256⟩).runWith 0 #[2] ⟨#[], ()⟩).2.1.stats = ⟨3, 0, 0⟩ := by
  have hroomier : (ofDescent ⟨3, 3⟩).Roomier (ofDescent ⟨1024, 256⟩) :=
    (roomier_prepared (by decide) (by decide) rfl _ _ _).load _ _ _
  have hlimit : ¬ (ofDescent ⟨3, 3⟩).MeetsLimit 0 #[2] ⟨#[], ()⟩ :=
    not_meetsLimit_of_ended (n := 12) rfl rfl (by decide +kernel)
  obtain ⟨hguards, hstrict⟩ := limits_are_guards hroomier 0 #[2] ⟨#[], ()⟩
  obtain ⟨-, -, -, -, hstats, -⟩ := hguards hlimit
  refine ⟨hroomier, hlimit, ⟨12, _, rfl, by decide +kernel⟩, ?_, hstats.trans (by decide +kernel)⟩
  exact hstrict _ rfl (Module.eachBody_ofPrograms (by simpa using descent_catchesNothing)) 0 rfl

end Machine
end MixedMode
