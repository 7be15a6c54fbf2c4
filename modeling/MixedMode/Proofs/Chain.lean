import MixedMode.Proofs.StackEffect
import MixedMode.Proofs.Steps
/-!
# Chain — the open frames of a run and the words below them

At every moment of a run the operand stack is made up, from the bottom, of what was there before the run and of what
each open frame has under it, was passed and has put on top (`Chained`), and the nesting counter says how many frames are
open.  A step keeps it so (`Moment.Sound.step`), by one case for each thing a step can do, and hence a run does
(`Machine.sound_moment`).
-/
namespace MixedMode

variable {β σ : Type}

/-! ## What an operation does to its frame before another body runs -/

namespace Context

variable {cx : Context β σ} {f f' : Frame β σ} {s s' : CallState σ} {op : Op σ} {k : op.Answer → Body σ}

/-- An operation that is answered at once keeps the frame but for its locals, and the words below the base. -/
theorem advance_answered_keeps {a : Answered σ} {body : Body σ}
    (h : cx.advance f s op k = .answered a body f' s') {low : List Word} (hlow : low <+: s.stack.words)
    (hbase : low.length ≤ f.base) :
    (∃ locals, f' = { f with locals } ∧ locals.size = f.locals.size) ∧ low <+: s'.stack.words ∧
      s'.stack.limit = s.stack.limit := by
  have hframe : (∃ locals, (cx.perform (cx.enter 0) op f s).2.1 = { f with locals } ∧
      locals.size = f.locals.size) := by
    cases op with
    | setLocal index value =>
      simp only [perform, Frame.setLocal]
      split
      · exact ⟨_, rfl, Array.size_setIfInBounds⟩
      · exact ⟨f.locals, rfl, rfl⟩
    | _ => exact ⟨f.locals, rfl, rfl⟩
  obtain ⟨hwords, hlimit, -⟩ := perform_keeps cx (cx.enter_keeps 0) op f s hlow hbase
  cases op with
  | call index =>
    simp only [advance] at h
    rcases Frame.placeCall_cases cx f index s with ⟨-, hp⟩ | ⟨_, -, -, hp⟩ | ⟨_, entry, s₁, -, -, hp, -⟩ <;>
      rw [hp] at h <;> cases h
    · exact ⟨⟨f.locals, rfl, rfl⟩, hlow, rfl⟩
    · exact ⟨⟨f.locals, rfl, rfl⟩, hlow, rfl⟩
  | callWith index args =>
    simp only [advance] at h
    rcases Frame.placeCallWith_cases cx index args s with
      ⟨-, hp⟩ | ⟨_, -, -, hp⟩ | ⟨_, -, -, -, -, hp⟩ | ⟨_, entry, s₁, -, -, -, hp, -⟩ <;> rw [hp] at h <;> cases h
    · exact ⟨⟨f.locals, rfl, rfl⟩, hlow, rfl⟩
    · exact ⟨⟨f.locals, rfl, rfl⟩, hlow, rfl⟩
    · exact ⟨⟨f.locals, rfl, rfl⟩, hlow, rfl⟩
  | _ =>
    cases h
    exact ⟨hframe, hwords, hlimit⟩

/-- A call that was placed found a function of the module and as many words as it takes: those on top of the stack, or
those that the caller holds.  It left the words below the base of the caller. -/
theorem advance_placed_spec {entry : Entry β σ} {passed under : List Word} {waiting : Waiting σ}
    (h : cx.advance f s op k = .placed entry passed under waiting s') :
    ∃ index callee, cx.module.function? index = some callee ∧ passed.length = callee.arity ∧
      Entry.Placed cx.convention callee passed under s s' entry ∧
      (∀ low : List Word, low <+: s.stack.words → low.length ≤ f.base → low <+: under) ∧
      ((op = .call index ∧ under ++ passed = s.stack.words) ∨
        ∃ args, op = .callWith index args ∧ passed = args.toList ∧ under = s.stack.words) := by
  cases op with
  | call index =>
    simp only [advance] at h
    rcases Frame.placeCall_cases cx f index s with
      ⟨-, hp⟩ | ⟨_, -, -, hp⟩ | ⟨callee, entry', s₁, hc, harity, hp, hplaced⟩ <;> rw [hp] at h <;> cases h
    rw [hplaced.function]
    refine ⟨index, callee, hc, ?_, hplaced, fun low hlow hbase => Frame.prefix_wordsWithout hlow hbase harity,
      .inl ⟨rfl, List.take_append_drop _ _⟩⟩
    have := Frame.arity_le_depth harity
    rw [List.length_drop, ← OperandStack.depth_eq_length]
    omega
  | callWith index args =>
    simp only [advance] at h
    rcases Frame.placeCallWith_cases cx index args s with
      ⟨-, hp⟩ | ⟨_, -, -, hp⟩ | ⟨_, -, -, -, -, hp⟩ | ⟨callee, entry', s₁, hc, harity, -, hp, hplaced⟩ <;>
      rw [hp] at h <;> cases h
    exact ⟨index, callee, hc, by rw [Array.length_toList, harity], hplaced, fun low hlow _ => hlow,
      .inr ⟨args, rfl, rfl, rfl⟩⟩
  | _ => cases h

end Context

theorem Waiting.resume_keeps (waiting : Waiting σ) (r : Except RuntimeError Word) (s : CallState σ) {low : List Word}
    (hlow : low <+: s.stack.words) :
    low <+: (waiting.resume r s).2.2.stack.words ∧ (waiting.resume r s).2.2.stack.limit = s.stack.limit := by
  cases waiting with
  | call index next =>
    cases r with
    | error e => exact ⟨hlow, rfl⟩
    | ok w => exact ⟨Frame.keeps_push hlow w, OperandStack.limit_push _ w⟩
  | callWith index args next => exact ⟨hlow, rfl⟩

theorem CallState.words_truncate {s : CallState σ} {low : List Word} (h : low <+: s.stack.words) :
    (s.truncate low.length).stack.words = low := by
  rw [truncate_eq, OperandStack.words_truncate]
  exact (List.prefix_iff_eq_take.1 h).symm

theorem Entry.Placed.words_truncate {c : Convention} {f : Function β σ} {passed under : List Word} {s s' : CallState σ}
    {entry : Entry β σ} (h : Entry.Placed c f passed under s s' entry) :
    (s'.truncate entry.floor).stack.words = under := by
  rw [h.floor]
  refine CallState.words_truncate ?_
  rw [h.words]
  split
  · exact List.prefix_append _ _
  · exact List.prefix_rfl

/-! ## The invariant -/

namespace OpenFrame

/-- The words below the base of a frame: those of its caller, and those it was passed unless the convention keeps them
off the stack. -/
def below (c : Convention) (o : OpenFrame β σ) : List Word :=
  if c.onStack o.frame.function then o.under ++ o.passed else o.under

/-- What holds of an open frame as long as it is open. -/
structure Sound (c : Convention) (o : OpenFrame β σ) : Prop where
  arity : o.passed.length = o.frame.arity
  floor : o.floor = o.under.length
  base : o.frame.base = (o.below c).length
  args : o.frame.args =
    if c.inRegisters o.frame.function then .registers o.passed.toArray else .stack o.under.length
  locals : o.frame.locals.size = o.frame.function.signature.locals

theorem under_prefix_below (c : Convention) (o : OpenFrame β σ) : o.under <+: o.below c := by
  unfold below
  split
  · exact List.prefix_append _ _
  · exact List.prefix_rfl

theorem Sound.words_truncate {c : Convention} {o : OpenFrame β σ} (ho : o.Sound c) {s : CallState σ}
    (hbelow : o.below c <+: s.stack.words) : (s.truncate o.floor).stack.words = o.under := by
  rw [ho.floor]
  exact CallState.words_truncate ((o.under_prefix_below c).trans hbelow)

end OpenFrame

/-- The words of the stack under a chain of open frames, innermost first, that was begun on the words `ground`. -/
def Chained (c : Convention) (ground : List Word) : List Word → List (OpenFrame β σ) → Prop
  | words, []        => words = ground
  | words, o :: rest => o.Sound c ∧ o.below c <+: words ∧ Chained c ground o.under rest

theorem Chained.mem {c : Convention} {ground : List Word} : ∀ {words : List Word} {chain : List (OpenFrame β σ)},
    Chained c ground words chain → ∀ o ∈ chain, o.Sound c ∧ o.below c <+: words
  | _, _ :: _, ⟨hsound, hbelow, _⟩, _, .head _   => ⟨hsound, hbelow⟩
  | _, o' :: _, ⟨_, hbelow, hrest⟩, o, .tail _ ho => by
    obtain ⟨hsound, hlow⟩ := hrest.mem o ho
    exact ⟨hsound, hlow.trans ((o'.under_prefix_below c).trans hbelow)⟩

/-- **An open frame reads the words it was passed**, as long as the stack holds what is below it. -/
theorem OpenFrame.Sound.arg {c : Convention} {o : OpenFrame β σ} (ho : o.Sound c) {stack : OperandStack}
    (hbelow : o.below c <+: stack.words) (j : Nat) :
    o.frame.arg stack j = match o.passed[j]? with
      | some w => .ok w
      | none   => .error (.argumentOutOfRange o.frame.function.name j o.frame.arity) := by
  unfold Frame.arg
  by_cases hj : j < o.frame.arity
  · have hj' : j < o.passed.length := ho.arity ▸ hj
    rw [if_pos hj, ho.args, List.getElem?_eq_getElem hj']
    cases hr : c.inRegisters o.frame.function with
    | true => simp [hj']
    | false =>
      have hon := Convention.onStack_of_not_inRegisters hr
      rw [below, hon, if_pos rfl] at hbelow
      obtain ⟨above, habove⟩ := hbelow
      have hslot : stack.words[o.under.length + j]? = some o.passed[j] := by
        rw [← habove, List.append_assoc, List.getElem?_append_right (Nat.le_add_right _ _), Nat.add_sub_cancel_left,
          List.getElem?_append_left hj', List.getElem?_eq_getElem hj']
      simp [OperandStack.get?_eq, hslot]
  · rw [if_neg hj, List.getElem?_eq_none (by rw [ho.arity]; exact Nat.le_of_not_lt hj)]

/-- Arguments that an open frame finds on the stack are the words right below its base. -/
theorem OpenFrame.Sound.base_of_onStack {c : Convention} {o : OpenFrame β σ} (ho : o.Sound c) {base : Nat}
    (hargs : o.frame.args = .stack base) : base = o.under.length ∧ base + o.frame.arity = o.frame.base := by
  rw [ho.args] at hargs
  cases hr : c.inRegisters o.frame.function with
  | true =>
    rw [hr] at hargs
    cases hargs
  | false =>
    have hon := Convention.onStack_of_not_inRegisters hr
    rw [hr] at hargs
    cases hargs
    refine ⟨rfl, ?_⟩
    rw [ho.base, below, hon, if_pos rfl, List.length_append, ho.arity]

/-- The base of an open frame is on the stack, and arguments it finds on the stack are below the base. -/
theorem OpenFrame.Sound.seated {c : Convention} {o : OpenFrame β σ} (ho : o.Sound c) {stack : OperandStack}
    (hbelow : o.below c <+: stack.words) : o.frame.Seated stack := by
  constructor
  · rw [ho.base, OperandStack.depth_eq_length]
    exact hbelow.length_le
  · exact fun base hargs => Nat.le_of_eq (ho.base_of_onStack hargs).2

namespace Moment

/-- What holds at every moment of a run that was begun on the stack `ground`. -/
structure Sound (c : Convention) (ground : OperandStack) (m : Moment β σ) : Prop where
  limit : m.state.stack.limit = ground.limit
  nesting : m.state.nesting = m.frames.length
  chain : Chained c ground.words m.state.stack.words m.frames

variable {cx : Context β σ} {f : Function β σ} {args : Array Word} {ground : OperandStack} {m : Moment β σ}

theorem frames_of_stage {more next : Nat} {active : OpenFrame β σ} {body : Body σ} {callers : List (Caller β σ)}
    (h : m.stage = .inside more next active body callers) : m.frames = active :: callers.map (·.opened) := by
  rw [frames, h]

theorem length_frames_of_stage {more next : Nat} {active : OpenFrame β σ} {body : Body σ} {callers : List (Caller β σ)}
    (h : m.stage = .inside more next active body callers) : m.frames.length = callers.length + 1 := by
  rw [frames_of_stage h, List.length_cons, List.length_map]

theorem sound_leave {c : Convention} (m : Moment β σ) (more next : Nat) {floor : Nat} {under : List Word}
    {callers : List (Caller β σ)} (r : Except RuntimeError Word) {s : CallState σ}
    (hlimit : s.stack.limit = ground.limit) (hnesting : s.nesting = callers.length)
    (hwords : (s.truncate floor).stack.words = under)
    (hchain : Chained c ground.words under (callers.map (·.opened))) :
    (m.leave more next floor r s callers).Sound c ground := by
  have hlimit' : (s.truncate floor).stack.limit = ground.limit := hlimit
  cases callers with
  | nil =>
    have hground : (s.truncate floor).stack.words = ground.words := hwords.trans hchain
    cases r <;> exact ⟨hlimit', hnesting, hground⟩
  | cons caller callers =>
    obtain ⟨hsound, hbelow, hrest⟩ := hchain
    obtain ⟨hkeep, hlim⟩ := caller.waiting.resume_keeps r (s.truncate floor) (hwords ▸ hbelow)
    refine ⟨hlim.trans hlimit', ?_, hsound, hkeep, hrest⟩
    rw [nesting_leave, hnesting]
    exact congrArg (· + 1) (List.length_map _).symm

/-- A callee whose arguments are in place finds them below its base. -/
theorem sound_attempt (m : Moment β σ) (more next : Nat) {callee : Function β σ} {entry : Entry β σ}
    {passed under : List Word} {callers : List (Caller β σ)} {s s' : CallState σ}
    (hp : Entry.Placed cx.convention callee passed under s s' entry) (harity : passed.length = callee.arity)
    (hlimit : s.stack.limit = ground.limit) (hnesting : s.nesting = callers.length)
    (hchain : Chained cx.convention ground.words under (callers.map (·.opened))) :
    (m.attempt cx more next entry passed under callers s').Sound cx.convention ground := by
  have hlimit' : s'.stack.limit = ground.limit := hp.limit.trans hlimit
  have hnesting' : s'.nesting = callers.length := hp.nesting.trans hnesting
  unfold attempt
  split
  · have hbelow : s'.stack.words =
        OpenFrame.below cx.convention ⟨entry.frame s'.stack.depth, entry.floor, passed, under⟩ := by
      rw [hp.words, OpenFrame.below, Entry.frame, hp.function]
    refine ⟨?_, ?_, ?_, ?_, hchain⟩
    · rw [CallState.stack_deeper, CallState.stack_countEntry]
      exact hlimit'
    · rw [CallState.nesting_entered, hnesting', frames, List.length_cons, List.length_map]
    · refine ⟨?_, hp.floor, ?_, ?_, Array.size_replicate⟩
      · rw [harity, Frame.arity, Entry.frame, hp.function]
      · rw [← hbelow]
        rfl
      · rw [Entry.frame, hp.args, hp.function]
    · exact ⟨[], by rw [List.append_nil, CallState.stack_deeper, CallState.stack_countEntry, hbelow]⟩
  · exact sound_leave m more next _ hlimit' hnesting' hp.words_truncate hchain

/-- **A step keeps a moment sound.** -/
theorem Sound.step (hm : m.Sound cx.convention ground) (hargs : args.size = f.arity) :
    (m.step cx f args).Sound cx.convention ground := by
  have hstep := stepped cx f args m
  have hchain := hm.chain
  have hnesting := hm.nesting
  generalize m.step cx f args = m' at hstep ⊢
  cases hstep with
  | ended => exact hm
  | finished hstage | refused hstage =>
    rw [frames, hstage] at hchain hnesting
    exact ⟨hm.limit, hnesting, hchain⟩
  | invoked hstage _ hplaced =>
    rw [frames, hstage] at hchain hnesting
    exact sound_attempt m _ _ hplaced (by rw [Array.length_toList, hargs]) hm.limit hnesting hchain
  | left hstage =>
    rw [frames_of_stage hstage] at hchain
    rw [length_frames_of_stage hstage] at hnesting
    obtain ⟨hsound, hbelow, hrest⟩ := hchain
    exact sound_leave m _ _ _ hm.limit (congrArg (· - 1) hnesting) (hsound.words_truncate hbelow) hrest
  | answered hstage hadvance =>
    rw [frames_of_stage hstage] at hchain
    rw [length_frames_of_stage hstage] at hnesting
    obtain ⟨hsound, hbelow, hrest⟩ := hchain
    obtain ⟨⟨locals, rfl, hsize⟩, hkeep, hlimit⟩ :=
      Context.advance_answered_keeps hadvance hbelow (Nat.le_of_eq hsound.base.symm)
    refine ⟨hlimit.trans hm.limit, ?_, ⟨hsound.arity, hsound.floor, hsound.base, hsound.args, ?_⟩, hkeep, hrest⟩
    · rw [Context.rest_of_answered hadvance, frames, List.length_cons, List.length_map]
      exact hnesting
    · exact hsize.trans hsound.locals
  | called hstage hadvance =>
    rw [frames_of_stage hstage] at hchain
    rw [length_frames_of_stage hstage] at hnesting
    obtain ⟨hsound, hbelow, hrest⟩ := hchain
    obtain ⟨index, callee, -, harity, hplaced, hlow, -⟩ := Context.advance_placed_spec hadvance
    refine sound_attempt m _ _ hplaced harity hm.limit hnesting ⟨hsound, ?_, hrest⟩
    exact hlow _ hbelow (Nat.le_of_eq hsound.base.symm)

theorem sound_iterate (hm : m.Sound cx.convention ground) (hargs : args.size = f.arity) (n : Nat) :
    ((step cx f args)^[n] m).Sound cx.convention ground :=
  Function.Iterate.rec (Moment.Sound cx.convention ground) hm (fun _ hm => hm.step hargs) n

theorem sound_start (c : Convention) (more : Nat) {s : CallState σ} (h : s.nesting = 0) :
    (start more s : Moment β σ).Sound c s.stack :=
  ⟨rfl, h, rfl⟩

end Moment

/-- **Every moment of a run of the machine is sound.** -/
theorem Machine.sound_moment {m : Machine β σ} {index : Nat} {args : Array Word} {w : World σ} {n : Nat}
    {mo : Moment β σ} (h : m.moment index args w n = some mo) : mo.Sound m.config.callStyle m.stack := by
  refine moment_induction (fun module f _ => ?_) (fun module f mo hr hm => ?_) h
  · exact Moment.sound_start _ _ (s := m.startState f index w) rfl
  · have hm : mo.Sound (m.context module).convention m.stack := hm
    exact hm.step (runnable_spec hr).2.2

end MixedMode
