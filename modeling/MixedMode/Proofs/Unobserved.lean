import MixedMode.Proofs.Counterpart
import MixedMode.Proofs.Iterations
import MixedMode.Proofs.Tally
import Mathlib.Algebra.Group.Defs
/-!
# Unobserved — what no body can see

A body sees neither the counters nor the log.  So a callee comes to the same, and adds the same to the counters, whatever
was counted and logged before it (`Context.enter_blind`).  What bodies keep is all that one invocation can leave to the
next one: where no body keeps anything, an invocation comes to the same each time it is made on the same stack
(`Context.exists_invocation`).
-/
namespace MixedMode

variable {β σ α : Type}

/-! ## Counters add up -/

namespace CallStats

@[ext]
theorem ext : ∀ {s t : CallStats}, s.interpreted = t.interpreted → s.native = t.native → s.fallbacks = t.fallbacks → s = t
  | ⟨_, _, _⟩, ⟨_, _, _⟩, rfl, rfl, rfl => rfl

/-- Counters are added one by one. -/
instance : AddCommMonoid CallStats where
  add s t := ⟨s.interpreted + t.interpreted, s.native + t.native, s.fallbacks + t.fallbacks⟩
  zero := .zero
  nsmul n s := ⟨n * s.interpreted, n * s.native, n * s.fallbacks⟩
  add_assoc _ _ _ := ext (Nat.add_assoc ..) (Nat.add_assoc ..) (Nat.add_assoc ..)
  zero_add _ := ext (Nat.zero_add _) (Nat.zero_add _) (Nat.zero_add _)
  add_zero _ := rfl
  add_comm _ _ := ext (Nat.add_comm ..) (Nat.add_comm ..) (Nat.add_comm ..)
  nsmul_zero _ := ext (Nat.zero_mul _) (Nat.zero_mul _) (Nat.zero_mul _)
  nsmul_succ _ _ := ext (Nat.succ_mul ..) (Nat.succ_mul ..) (Nat.succ_mul ..)

theorem count_add (stats more : CallStats) (c : Convention) (target : CallTarget σ) :
    (stats + more).count c target = stats.count c target + more := by
  unfold count
  split
  · exact ext rfl (Nat.add_right_comm ..) rfl
  · exact ext (Nat.add_right_comm ..) rfl (Nat.add_right_comm ..)

end CallStats

/-! ## States that differ in the counters and the log -/

/-- Two states that are the same but for the log, the second with `more` on top of what the first has counted. -/
structure CallState.Ahead (more : CallStats) (s s' : CallState σ) : Prop where
  stack : s'.stack = s.stack
  kept : s'.kept = s.kept
  nesting : s'.nesting = s.nesting
  stats : s'.stats = s.stats + more

/-- The same answer from two states, the second of which stays ahead. -/
structure Alongside (more : CallStats) (x x' : α × CallState σ) : Prop where
  answer : x'.1 = x.1
  state : x.2.Ahead more x'.2

theorem Alongside.exists_eq {more : CallStats} {x x' : α × CallState σ} (h : Alongside more x x') :
    ∃ a s s', x = (a, s) ∧ x' = (a, s') ∧ s.Ahead more s' :=
  ⟨x.1, x.2, x'.2, rfl, by rw [← h.answer], h.state⟩

/-- Running a callee comes to the same, and counts the same, whatever was counted and logged before. -/
def Enter.Blind (enter : Enter β σ) : Prop :=
  ∀ ⦃more : CallStats⦄ ⦃s s' : CallState σ⦄ (entry : Entry β σ), s.Ahead more s' →
    Alongside more (enter entry s) (enter entry s')

namespace CallState.Ahead

variable {more : CallStats} {s s' : CallState σ}

theorem onStack (h : s.Ahead more s') (f : OperandStack → α × OperandStack) :
    Alongside more (s.onStack f) (s'.onStack f) := by
  refine ⟨?_, ?_, h.kept, h.nesting, h.stats⟩
  · rw [onStack_fst, onStack_fst, h.stack]
  · rw [onStack_snd, onStack_snd, h.stack]

theorem pop (h : s.Ahead more s') (f : Frame β σ) : Alongside more (f.pop s) (f.pop s') := by
  unfold Frame.pop
  rw [h.stack]
  split
  · exact ⟨rfl, h⟩
  · exact h.onStack (·.pop)

theorem truncate (h : s.Ahead more s') (depth : Nat) : (s.truncate depth).Ahead more (s'.truncate depth) := by
  refine ⟨?_, h.kept, h.nesting, h.stats⟩
  rw [truncate_eq, truncate_eq, h.stack]

theorem countEntry (h : s.Ahead more s') (c : Convention) (f : Function β σ) (target : CallTarget σ) :
    (s.countEntry c f target).Ahead more (s'.countEntry c f target) := by
  refine ⟨?_, ?_, ?_, ?_⟩
  · rw [stack_countEntry, stack_countEntry, h.stack]
  · rw [kept_countEntry, kept_countEntry, h.kept]
  · rw [nesting_countEntry, nesting_countEntry, h.nesting]
  · rw [stats_countEntry, stats_countEntry, h.stats, CallStats.count_add]

theorem deeper (h : s.Ahead more s') : s.deeper.Ahead more s'.deeper :=
  ⟨h.stack, h.kept, congrArg (· + 1) h.nesting, h.stats⟩

theorem shallower (h : s.Ahead more s') : s.shallower.Ahead more s'.shallower :=
  ⟨h.stack, h.kept, congrArg (· - 1) h.nesting, h.stats⟩

theorem fromStack (h : s.Ahead more s') (c : Convention) (f : Function β σ) (base : Nat) :
    Alongside more (Entry.fromStack c f base s) (Entry.fromStack c f base s') := by
  have hsplit := h.onStack (·.splitOff base)
  unfold Entry.fromStack
  dsimp only
  rw [h.stack, hsplit.answer]
  split
  · split
    · exact ⟨rfl, h⟩
    · exact ⟨rfl, hsplit.state⟩
  · exact ⟨rfl, h⟩

theorem fromWords (h : s.Ahead more s') (c : Convention) (f : Function β σ) (args : Array Word) :
    Alongside more (Entry.fromWords c f args s) (Entry.fromWords c f args s') := by
  have hextended := h.onStack (·.extend args)
  unfold Entry.fromWords
  dsimp only
  rw [h.stack]
  split
  · exact ⟨rfl, h⟩
  · obtain ⟨r, t, t', heq, heq', ht⟩ := hextended.exists_eq
    rw [heq, heq']
    cases r <;> exact ⟨rfl, ht⟩

theorem fromOutside (h : s.Ahead more s') (c : Convention) (f : Function β σ) (args : Array Word) :
    Alongside more (Entry.fromOutside c f args s) (Entry.fromOutside c f args s') := by
  have hextended := h.onStack (·.extend args)
  unfold Entry.fromOutside
  dsimp only
  rw [h.stack]
  obtain ⟨r, t, t', heq, heq', ht⟩ := hextended.exists_eq
  rw [heq, heq']
  cases r with
  | error e => exact ⟨rfl, ht⟩
  | ok u =>
    have hplaced := ht.fromStack c f s.stack.depth
    exact ⟨congrArg Except.ok hplaced.answer, hplaced.state⟩

theorem placeCall (h : s.Ahead more s') (cx : Context β σ) (f : Frame β σ) (index : Nat) :
    Alongside more (f.placeCall cx index s) (f.placeCall cx index s') := by
  unfold Frame.placeCall
  cases cx.module.function? index with
  | none => exact ⟨rfl, h⟩
  | some callee =>
    dsimp only
    rw [h.stack]
    split
    · exact ⟨rfl, h⟩
    · have hplaced := h.fromStack cx.convention callee (s.stack.depth - callee.arity)
      exact ⟨congrArg Except.ok hplaced.answer, hplaced.state⟩

theorem placeCallWith (h : s.Ahead more s') (cx : Context β σ) (index : Nat) (args : Array Word) :
    Alongside more (Frame.placeCallWith cx index args s) (Frame.placeCallWith cx index args s') := by
  unfold Frame.placeCallWith
  cases cx.module.function? index with
  | none => exact ⟨rfl, h⟩
  | some callee =>
    dsimp only
    split
    · exact h.fromWords cx.convention callee args
    · exact ⟨rfl, h⟩

end CallState.Ahead

/-! ## Running a callee -/

section

variable {cx : Context β σ} {enter : Enter β σ} {more : CallStats} {s s' : CallState σ}

namespace Enter.Blind

theorem leave (he : enter.Blind) (entry : Entry β σ) (hs : s.Ahead more s') :
    Alongside more (enter.leave entry s) (enter.leave entry s') :=
  ⟨(he entry hs).answer, (he entry hs).state.truncate entry.floor⟩

theorem call (he : enter.Blind) (cx : Context β σ) (f : Frame β σ) (index : Nat) (hs : s.Ahead more s') :
    Alongside more (f.call cx enter index s) (f.call cx enter index s') := by
  have hplaced := hs.placeCall cx f index
  unfold Frame.call
  obtain ⟨r, t, t', heq, heq', ht⟩ := hplaced.exists_eq
  rw [heq, heq']
  cases r with
  | error e => exact ⟨rfl, ht⟩
  | ok entry =>
    have hleft := he.leave entry ht
    dsimp only
    obtain ⟨r, u, u', heq, heq', hu⟩ := hleft.exists_eq
    rw [heq, heq']
    cases r with
    | error e => exact ⟨rfl, hu⟩
    | ok w => exact hu.onStack (·.push w)

theorem callWith (he : enter.Blind) (cx : Context β σ) (index : Nat) (args : Array Word) (hs : s.Ahead more s') :
    Alongside more (Frame.callWith cx enter index args s) (Frame.callWith cx enter index args s') := by
  have hplaced := hs.placeCallWith cx index args
  unfold Frame.callWith
  obtain ⟨r, t, t', heq, heq', ht⟩ := hplaced.exists_eq
  rw [heq, heq']
  cases r with
  | error e => exact ⟨rfl, ht⟩
  | ok entry => exact he.leave entry ht

end Enter.Blind

namespace Context

variable (cx)

/-- **No operation tells the counters or the log.** -/
theorem perform_blind (he : enter.Blind) (op : Op σ) (f : Frame β σ) (hs : s.Ahead more s') :
    (cx.perform enter op f s').1 = (cx.perform enter op f s).1 ∧
      (cx.perform enter op f s').2.1 = (cx.perform enter op f s).2.1 ∧
      (cx.perform enter op f s).2.2.Ahead more (cx.perform enter op f s').2.2 := by
  cases op with
  | arg index => exact ⟨by rw [perform, perform, hs.stack], rfl, hs⟩
  | peek distance => exact ⟨by rw [perform, perform, hs.stack], rfl, hs⟩
  | depth => exact ⟨congrArg OperandStack.depth hs.stack, rfl, hs⟩
  | memory => exact ⟨hs.kept, rfl, hs⟩
  | keep kept => exact ⟨rfl, rfl, hs.stack, rfl, hs.nesting, hs.stats⟩
  | push value =>
    have hpushed := hs.onStack (·.push value)
    exact ⟨hpushed.answer, rfl, hpushed.state⟩
  | pop =>
    have hpopped := hs.pop f
    exact ⟨hpopped.answer, rfl, hpopped.state⟩
  | call index =>
    have hcalled := he.call cx f index hs
    exact ⟨hcalled.answer, rfl, hcalled.state⟩
  | callWith index args =>
    have hcalled := he.callWith cx index args hs
    exact ⟨hcalled.answer, rfl, hcalled.state⟩
  | _ => exact ⟨rfl, rfl, hs⟩

theorem run_blind (he : enter.Blind) : ∀ (p : Program σ α) (f : Frame β σ) {s s' : CallState σ}, s.Ahead more s' →
    (p.run (cx.perform enter) f s').1 = (p.run (cx.perform enter) f s).1 ∧
      (p.run (cx.perform enter) f s).2.2.Ahead more (p.run (cx.perform enter) f s').2.2
  | .done _, _, _, _, hs      => ⟨rfl, hs⟩
  | .step op k, f, s, s', hs => by
    obtain ⟨hanswer, hframe, hstate⟩ := cx.perform_blind he op f hs
    simp only [Program.run]
    rw [hanswer, hframe]
    exact run_blind he _ _ hstate

/-- **A callee comes to the same, and counts the same, whatever was counted and logged before.** -/
theorem enter_blind : ∀ levels : Nat, (cx.enter levels).Blind
  | 0, _, _, _, _, hs               => ⟨rfl, hs⟩
  | levels + 1, more, s, s', entry, hs => by
    have hcounted := hs.countEntry cx.convention entry.function entry.target
    obtain ⟨hanswer, hstate⟩ := cx.run_blind (enter_blind levels) (cx.bodyOf entry.function entry.target)
      (entry.frame (s.countEntry cx.convention entry.function entry.target).stack.depth) hcounted.deeper
    simp only [enter, hcounted.stack, hs.nesting]
    split
    · exact ⟨rfl, hs⟩
    · exact ⟨hanswer, hstate.shallower⟩

theorem invoke_blind (f : Function β σ) (args : Array Word) (hs : s.Ahead more s') :
    Alongside more (cx.invoke f args s) (cx.invoke f args s') := by
  have hplaced := hs.fromOutside cx.convention f args
  unfold invoke
  obtain ⟨r, t, t', heq, heq', ht⟩ := hplaced.exists_eq
  rw [heq, heq']
  cases r with
  | error e => exact ⟨rfl, ht⟩
  | ok entry => exact (cx.enter_blind cx.maxDepth).leave entry ht

end Context

end

/-! ## Bodies that keep nothing -/

def Op.keeps : Op σ → Bool
  | .keep _ => true
  | _       => false

theorem samplePrograms_avoid_keeps : ∀ p ∈ samplePrograms, p.2.Avoids Op.keeps :=
  samplePrograms_avoid_of (fun _ => rfl) (fun _ => rfl) rfl (fun _ => rfl) fun _ _ => rfl

/-- No body of the module, native or not, keeps words of its own. -/
def Module.KeepsNothing (M : Module β σ) (interpreter : Interpreter β σ) : Prop :=
  ∀ f ∈ M.functions, (interpreter f.signature f.bytecode).Avoids Op.keeps ∧
    ∀ body, f.native = some body → body.Avoids Op.keeps

theorem Module.keepsNothing_ofPrograms {name : String} {programs : Array (Signature × Body σ)}
    (h : ∀ p ∈ programs, p.2.Avoids Op.keeps) (compiled : Nat → Bool) :
    (ofPrograms name programs compiled).KeepsNothing .ofPrograms :=
  eachBody_ofPrograms h

namespace Context

variable {cx : Context β σ} {enter : Enter β σ} {s s' : CallState σ}

/-- Running a callee of the module leaves alone what bodies keep. -/
def SparesKept (cx : Context β σ) (enter : Enter β σ) : Prop :=
  ∀ ⦃callee : Function β σ⦄ ⦃passed under : List Word⦄ ⦃s s' : CallState σ⦄ ⦃entry : Entry β σ⦄,
    callee ∈ cx.module.functions → Entry.Placed cx.convention callee passed under s s' entry →
    (enter entry s').2.kept = s.kept

theorem SparesKept.call (he : cx.SparesKept enter) (f : Frame β σ) (index : Nat) (s : CallState σ) :
    (f.call cx enter index s).2.kept = s.kept := by
  rcases Frame.placeCall_cases cx f index s with ⟨-, hp⟩ | ⟨_, -, -, hp⟩ | ⟨callee, entry, s', hindex, -, hp, hplaced⟩
  · rw [Frame.call, hp]
  · rw [Frame.call, hp]
  · have hkept : (Enter.leave enter entry s').2.kept = s.kept := he (Module.mem_of_function? hindex) hplaced
    rw [Frame.call, hp]
    dsimp only
    cases hleft : Enter.leave enter entry s' with
    | mk r u =>
      rw [hleft] at hkept
      cases r <;> exact hkept

theorem SparesKept.callWith (he : cx.SparesKept enter) (index : Nat) (args : Array Word) (s : CallState σ) :
    (Frame.callWith cx enter index args s).2.kept = s.kept := by
  rcases Frame.placeCallWith_cases cx index args s with
    ⟨-, hp⟩ | ⟨_, -, -, hp⟩ | ⟨_, -, -, -, -, hp⟩ | ⟨callee, entry, s', hindex, -, -, hp, hplaced⟩
  · rw [Frame.callWith, hp]
  · rw [Frame.callWith, hp]
  · rw [Frame.callWith, hp]
  · rw [Frame.callWith, hp]
    exact he (Module.mem_of_function? hindex) hplaced

theorem kept_perform (he : cx.SparesKept enter) {op : Op σ} (hop : op.keeps = false) (f : Frame β σ) (s : CallState σ) :
    (cx.perform enter op f s).2.2.kept = s.kept := by
  cases op with
  | keep kept => cases hop
  | pop =>
    simp only [perform, Frame.pop]
    split <;> rfl
  | call index => exact he.call f index s
  | callWith index args => exact he.callWith index args s
  | _ => rfl

theorem kept_run (he : cx.SparesKept enter) : ∀ (p : Program σ α) (f : Frame β σ) (s : CallState σ),
    p.Avoids Op.keeps → (p.run (cx.perform enter) f s).2.2.kept = s.kept
  | .done _, _, _, _              => rfl
  | .step _ k, f, s, ⟨hop, hnext⟩ => (kept_run he (k _) _ _ (hnext _)).trans (kept_perform he hop f s)

/-- **Where no body keeps anything, a callee leaves alone what is kept.** -/
theorem enter_sparesKept (h : cx.module.KeepsNothing cx.interpreter) : ∀ levels : Nat, cx.SparesKept (cx.enter levels)
  | 0, _, _, _, _, _, _, _, hplaced => by
    rw [hplaced.rest]
    rfl
  | levels + 1, callee, _, _, s, s', entry, hmem, hplaced => by
    have hbody : (cx.bodyOf entry.function entry.target).Avoids Op.keeps := by
      rw [hplaced.target, hplaced.function]
      exact Module.EachBody.bodyOf h hmem _
    have hcounted : (s'.countEntry cx.convention entry.function entry.target).deeper.kept = s'.kept :=
      s'.kept_countEntry ..
    have hplaced' : s'.kept = s.kept := by rw [hplaced.rest]
    rw [enter]
    split
    · exact hplaced'
    · exact ((kept_run (enter_sparesKept h levels) _ _ _ hbody).trans hcounted).trans hplaced'

theorem kept_invoke (h : cx.module.KeepsNothing cx.interpreter) {f : Function β σ} (hf : f ∈ cx.module.functions)
    (args : Array Word) (s : CallState σ) : (cx.invoke f args s).2.kept = s.kept := by
  rcases Entry.placed_fromOutside cx.convention f args s with ⟨entry, s', hp, hplaced, -⟩ | ⟨hp, -⟩
  · rw [invoke, hp]
    exact enter_sparesKept h cx.maxDepth hf hplaced
  · rw [invoke, hp]

/-- **Every invocation on the same stack comes to the same and counts the same**, as long as bodies find the same
kept and the nesting counter stands where it did. -/
theorem exists_invocation (cx : Context β σ) (f : Function β σ) (args : Array Word) (stack : OperandStack) (kept : σ)
    (nesting : Nat) :
    ∃ r more, ∀ s : CallState σ, s.stack = stack → s.kept = kept → s.nesting = nesting →
      (cx.invoke f args s).1 = r ∧ (cx.invoke f args s).2.stats = s.stats + more := by
  refine ⟨(cx.invoke f args ⟨stack, 0, #[], kept, nesting⟩).1, (cx.invoke f args ⟨stack, 0, #[], kept, nesting⟩).2.stats,
    fun s hstack hkept hnesting => ?_⟩
  have hahead : CallState.Ahead s.stats ⟨stack, 0, #[], kept, nesting⟩ s :=
    ⟨hstack, hkept, hnesting, (zero_add _).symm⟩
  have hsame := cx.invoke_blind f args hahead
  exact ⟨hsame.answer, hsame.state.stats.trans (add_comm ..)⟩

end Context

end MixedMode
