import MixedMode.Machine
import MixedMode.Proofs.Words
import Mathlib.Logic.Function.Iterate
/-!
# Moments — a run taken apart into steps

`Machine.runWith` tells how a run ends.  A `Moment` is a run on its way: the frames that are open, innermost first, what
is left of each body, the state they share, and what has happened so far.  `Moment.step` answers one operation, enters
one body or leaves one; it places arguments and answers operations by the definitions the run itself uses.  That the
steps lead to what `runWith` answers is `Machine.runWith_of_ended`.
-/
namespace MixedMode

variable {β σ : Type}

/-- An operation of a frame with the answer it got. -/
structure Answered (σ : Type) where
  op : Op σ
  answer : op.Answer

/-- A body that waits for a call: the call, and how the body goes on from its answer. -/
inductive Waiting (σ : Type) where
  | call (index : Nat) (next : Except RuntimeError Unit → Body σ)
  | callWith (index : Nat) (args : Array Word) (next : Except RuntimeError Word → Body σ)

/-- A frame whose body was entered and has not been left.  `passed` and `under` are kept from the moment of the call:
no step reads them. -/
structure OpenFrame (β σ : Type) where
  frame : Frame β σ
  /-- The depth to which the operand stack goes back when the frame is left. -/
  floor : Nat
  /-- The words the caller passed. -/
  passed : List Word
  /-- The operand stack of the caller without the words it passed. -/
  under : List Word

/-- An open frame that waits for the one above it. -/
structure Caller (β σ : Type) where
  opened : OpenFrame β σ
  waiting : Waiting σ

/-- How far a run has come. -/
inductive Stage (β σ : Type) where
  /-- No frame is open: `more` invocations are left, the next one is number `next`. -/
  | between (more next : Nat) (last : Word)
  /-- In invocation `next` the active frame has still to do `body`; its callers wait, innermost first. -/
  | inside (more next : Nat) (active : OpenFrame β σ) (body : Body σ) (callers : List (Caller β σ))
  | ended (result : Except RuntimeError Word)

structure Moment (β σ : Type) where
  stage : Stage β σ
  state : CallState σ
  /-- The callees entered so far, the latest first. -/
  entries : List (Entry β σ)
  /-- The operations answered so far, the latest first. -/
  answers : List (Answered σ)

/-- What an operation comes to before another body runs: an answer, or a callee whose arguments are in place. -/
inductive Advance (β σ : Type) where
  | answered (a : Answered σ) (body : Body σ) (frame : Frame β σ) (state : CallState σ)
  | placed (entry : Entry β σ) (passed under : List Word) (waiting : Waiting σ) (state : CallState σ)

/-- Perform an operation up to the entry of a callee.  An operation that is no call is performed as where no callee can
be entered, which makes no difference to it. -/
def Context.advance (cx : Context β σ) (f : Frame β σ) (s : CallState σ) :
    (op : Op σ) → (op.Answer → Body σ) → Advance β σ
  | .call index, k =>
    match f.placeCall cx index s with
    | (.error e, s)   => .answered ⟨.call index, Except.error e⟩ (k (Except.error e)) f s
    | (.ok entry, s') =>
      let low := s.stack.depth - entry.function.arity
      .placed entry (s.stack.words.drop low) (s.stack.words.take low) (.call index k) s'
  | .callWith index args, k =>
    match Frame.placeCallWith cx index args s with
    | (.error e, s)   => .answered ⟨.callWith index args, Except.error e⟩ (k (Except.error e)) f s
    | (.ok entry, s') => .placed entry args.toList s.stack.words (.callWith index args k) s'
  | op, k =>
    match cx.perform (cx.enter 0) op f s with
    | (answer, f, s) => .answered ⟨op, answer⟩ (k answer) f s

/-- The answer to a call whose callee was left with this outcome and whose words are off the stack, and how the caller
goes on. -/
def Waiting.resume : Waiting σ → Except RuntimeError Word → CallState σ → Answered σ × Body σ × CallState σ
  | .call index next, .error e, s => (⟨.call index, Except.error e⟩, next (.error e), s)
  | .call index next, .ok w, s    =>
    match s.onStack (·.push w) with
    | (r, s) => (⟨.call index, r⟩, next r, s)
  | .callWith index args next, r, s => (⟨.callWith index args, r⟩, next r, s)

theorem Context.advance_answered {cx : Context β σ} {f f' : Frame β σ} {s s' : CallState σ} {op : Op σ}
    {k : op.Answer → Body σ} {a : Answered σ} {body : Body σ}
    (h : cx.advance f s op k = .answered a body f' s') : ∃ answer, a = ⟨op, answer⟩ ∧ body = k answer := by
  cases op with
  | call index =>
    simp only [advance] at h
    split at h <;> cases h
    exact ⟨_, rfl, rfl⟩
  | callWith index args =>
    simp only [advance] at h
    split at h <;> cases h
    exact ⟨_, rfl, rfl⟩
  | _ => cases h; exact ⟨_, rfl, rfl⟩

theorem Context.advance_placed {cx : Context β σ} {f : Frame β σ} {s s' : CallState σ} {op : Op σ}
    {k : op.Answer → Body σ} {entry : Entry β σ} {passed under : List Word} {waiting : Waiting σ}
    (h : cx.advance f s op k = .placed entry passed under waiting s') (r : Except RuntimeError Word)
    (s'' : CallState σ) :
    ∃ answer, (waiting.resume r s'').1 = ⟨op, answer⟩ ∧ (waiting.resume r s'').2.1 = k answer := by
  cases op with
  | call index =>
    simp only [advance] at h
    split at h <;> cases h
    cases r <;> exact ⟨_, rfl, rfl⟩
  | callWith index args =>
    simp only [advance] at h
    split at h <;> cases h
    exact ⟨_, rfl, rfl⟩
  | _ => cases h

namespace Moment

/-- A callee is left: its caller goes on, or the invocation is finished. -/
def leave (m : Moment β σ) (more next floor : Nat) (r : Except RuntimeError Word) (s : CallState σ) :
    List (Caller β σ) → Moment β σ
  | [] =>
    match r with
    | .error e => { m with stage := .ended (.error e), state := s.truncate floor }
    | .ok w    =>
      { m with stage := .between more (next + 1) w,
               state := { s.truncate floor with events := s.events.push (.iterated next w) } }
  | c :: callers =>
    match c.waiting.resume r (s.truncate floor) with
    | (a, body, s) =>
      { m with stage := .inside more next c.opened body callers, state := s, answers := a :: m.answers }

/-- A callee whose arguments are in place is entered, or refused when as many bodies are open as there may be. -/
def attempt (cx : Context β σ) (m : Moment β σ) (more next : Nat) (entry : Entry β σ) (passed under : List Word)
    (callers : List (Caller β σ)) (s : CallState σ) : Moment β σ :=
  if s.nesting < cx.maxDepth then
    { m with stage := .inside more next ⟨entry.frame s.stack.depth, entry.floor, passed, under⟩
               (cx.bodyOf entry.function entry.target) callers,
             state := (s.countEntry cx.convention entry.function entry.target).deeper,
             entries := entry :: m.entries }
  else m.leave more next entry.floor (.error (.recursionLimit cx.maxDepth)) s callers

/-- One step of a run of `f` on `args`. -/
def step (cx : Context β σ) (f : Function β σ) (args : Array Word) (m : Moment β σ) : Moment β σ :=
  match m.stage with
  | .ended _            => m
  | .between 0 _ last  => { m with stage := .ended (.ok last) }
  | .between (more + 1) next _ =>
    match Entry.fromOutside cx.convention f args m.state with
    | (.error e, s)  => { m with stage := .ended (.error e), state := s }
    | (.ok entry, s) => m.attempt cx more next entry args.toList m.state.stack.words [] s
  | .inside more next active (.done r) callers => m.leave more next active.floor r m.state.shallower callers
  | .inside more next active (.step op k) callers =>
    match cx.advance active.frame m.state op k with
    | .answered a body frame s =>
      { m with stage := .inside more next { active with frame } body callers, state := s, answers := a :: m.answers }
    | .placed entry passed under waiting s =>
      m.attempt cx more next entry passed under (⟨active, waiting⟩ :: callers) s

/-! ## The steps, one at a time -/

variable {cx : Context β σ} {f : Function β σ} {args : Array Word} {m : Moment β σ} {more next : Nat}
  {active : OpenFrame β σ} {callers : List (Caller β σ)}

theorem step_ended {r : Except RuntimeError Word} (hm : m.stage = .ended r) : step cx f args m = m := by
  rw [step, hm]

theorem step_between_zero {last : Word} (hm : m.stage = .between 0 next last) :
    step cx f args m = { m with stage := .ended (.ok last) } := by
  rw [step, hm]

theorem step_between_error {last : Word} {e : RuntimeError} {s : CallState σ}
    (hm : m.stage = .between (more + 1) next last)
    (hp : Entry.fromOutside cx.convention f args m.state = (.error e, s)) :
    step cx f args m = { m with stage := .ended (.error e), state := s } := by
  simp only [step, hm, hp]

theorem step_between_ok {last : Word} {entry : Entry β σ} {s : CallState σ}
    (hm : m.stage = .between (more + 1) next last)
    (hp : Entry.fromOutside cx.convention f args m.state = (.ok entry, s)) :
    step cx f args m = m.attempt cx more next entry args.toList m.state.stack.words [] s := by
  simp only [step, hm, hp]

theorem step_done {r : Except RuntimeError Word} (hm : m.stage = .inside more next active (.done r) callers) :
    step cx f args m = m.leave more next active.floor r m.state.shallower callers := by
  rw [step, hm]

theorem step_answered {op : Op σ} {k : op.Answer → Body σ} {a : Answered σ} {body : Body σ} {frame : Frame β σ}
    {s : CallState σ} (hm : m.stage = .inside more next active (.step op k) callers)
    (ha : cx.advance active.frame m.state op k = .answered a body frame s) :
    step cx f args m =
      { m with stage := .inside more next { active with frame } body callers, state := s,
               answers := a :: m.answers } := by
  simp only [step, hm, ha]

theorem step_placed {op : Op σ} {k : op.Answer → Body σ} {entry : Entry β σ} {passed under : List Word}
    {waiting : Waiting σ} {s : CallState σ} (hm : m.stage = .inside more next active (.step op k) callers)
    (ha : cx.advance active.frame m.state op k = .placed entry passed under waiting s) :
    step cx f args m = m.attempt cx more next entry passed under (⟨active, waiting⟩ :: callers) s := by
  simp only [step, hm, ha]

theorem attempt_of_lt {s : CallState σ} (h : s.nesting < cx.maxDepth) (m : Moment β σ) (more next : Nat)
    (entry : Entry β σ) (passed under : List Word) (callers : List (Caller β σ)) :
    m.attempt cx more next entry passed under callers s =
      { m with stage := .inside more next ⟨entry.frame s.stack.depth, entry.floor, passed, under⟩
                 (cx.bodyOf entry.function entry.target) callers,
               state := (s.countEntry cx.convention entry.function entry.target).deeper,
               entries := entry :: m.entries } :=
  if_pos h

theorem attempt_of_le {s : CallState σ} (h : cx.maxDepth ≤ s.nesting) (m : Moment β σ) (more next : Nat)
    (entry : Entry β σ) (passed under : List Word) (callers : List (Caller β σ)) :
    m.attempt cx more next entry passed under callers s =
      m.leave more next entry.floor (.error (.recursionLimit cx.maxDepth)) s callers :=
  if_neg (Nat.not_lt_of_le h)

def start (more : Nat) (s : CallState σ) : Moment β σ := ⟨.between more 0 0, s, [], []⟩

/-- The open frames, innermost first. -/
def frames (m : Moment β σ) : List (OpenFrame β σ) :=
  match m.stage with
  | .inside _ _ active _ callers => active :: callers.map (·.opened)
  | _                            => []

def result? (m : Moment β σ) : Option (Except RuntimeError Word) :=
  match m.stage with
  | .ended r => some r
  | _       => none

end Moment

/-- The state in which a run of `f` begins: its start is logged, and no body is open. -/
def Machine.startState (m : Machine β σ) (f : Function β σ) (index : Nat) (w : World σ) : CallState σ :=
  ⟨m.stack, m.stats, (w.log (.started f.name index m.config.callStyle m.config.loopCount.toNat)).events, w.kept, 0⟩

/-- What a run of `f` answers and leaves that has come to this result in this state. -/
def Machine.outcome (m : Machine β σ) (f : Function β σ) :
    Except RuntimeError Word → CallState σ → Except MachineError Word × Machine β σ × World σ
  | .error e, s   =>
    (.error (.runtime f.name e), { m with stack := s.stack, stats := s.stats }, ⟨s.events, s.kept⟩)
  | .ok result, s =>
    (.ok result, { m with stack := s.stack, stats := s.stats },
      ⟨s.events.push (.finished f.name result s.stats), s.kept⟩)

/-- The moment of `Machine.runWith` after `n` steps; there is none when the machine refuses the run. -/
def Machine.moment (m : Machine β σ) (index : Nat) (args : Array Word) (w : World σ) (n : Nat) :
    Option (Moment β σ) :=
  match m.runnable index args.size with
  | .error _ => none
  | .ok (module, f) =>
    some ((Moment.step (m.context module) f args)^[n]
      (Moment.start m.config.loopCount.toNat (m.startState f index w)))

end MixedMode
