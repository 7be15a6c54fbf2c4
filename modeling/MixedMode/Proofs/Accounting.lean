import MixedMode.Proofs.Arguments
import MixedMode.Proofs.LifeCycle
import MixedMode.Proofs.Tally
/-!
# Accounting — what the counters of a machine say

A history is recorded with the callees that were entered in it (`Recorded`), those of every run and of every nesting
level.  Each of them was entered the way the convention says (`Entry.Dispatched`), and the counters are the recorded
entries, counted (`History.counters_are_entries`).  A step of a run that enters no body counts nothing, and a call that
is refused for one of the reasons there are (`Frame.Refuses`) enters none.
-/
namespace MixedMode

variable {β σ : Type}

/-! ## How a callee is entered -/

theorem Convention.usesNative_iff {c : Convention} : c.usesNative = true ↔ c ≠ .interpreter := by
  cases c <;> simp [usesNative]

theorem Convention.passesInRegisters_iff {c : Convention} :
    c.passesInRegisters = true ↔ c = .passParameter ∨ c = .operandStack := by
  cases c <;> simp [passesInRegisters]

/-- A callee is entered natively just when the convention enters native entries and the callee has one. -/
theorem CallTarget.resolve_eq_native {c : Convention} {f : Function β σ} {body : Body σ} :
    resolve c f = native body ↔ c ≠ .interpreter ∧ f.native = some body := by
  unfold resolve
  rw [← Convention.usesNative_iff]
  cases f.native with
  | none => simp
  | some body' => cases c.usesNative <;> simp

/-- The callee was entered the way the convention says, with its arguments where the convention puts them. -/
structure Entry.Dispatched (c : Convention) (entry : Entry β σ) : Prop where
  native : ∀ body, entry.target = .native body ↔ c ≠ .interpreter ∧ entry.function.native = some body
  inRegisters : entry.args.inRegisters = true ↔
    entry.target.isNative = true ∧ (c = .passParameter ∨ c = .operandStack)

namespace Entry

variable {c : Convention} {entry : Entry β σ}

theorem Placed.dispatched {f : Function β σ} {passed under : List Word} {s s' : CallState σ}
    (h : Placed c f passed under s s' entry) : entry.Dispatched c := by
  constructor
  · intro body
    rw [h.target, h.function]
    exact CallTarget.resolve_eq_native
  · have hargs : entry.args.inRegisters = c.inRegisters f := by
      rw [h.args]
      cases c.inRegisters f <;> rfl
    rw [hargs, Convention.inRegisters, h.target, Bool.and_eq_true, Convention.passesInRegisters_iff]

theorem Dispatched.isNative_eq_false (h : entry.Dispatched .interpreter) : entry.target.isNative = false := by
  cases ht : entry.target with
  | native body => exact absurd rfl ((h.native body).1 ht).1
  | interpret => rfl

end Entry

/-! ## Entries, counted -/

/-- The counters are the numbers of these entries. -/
structure CallStats.Counts (c : Convention) (entries : List (Entry β σ)) (stats : CallStats) : Prop where
  native : stats.native = entries.countP (·.target.isNative)
  interpreted : stats.interpreted = entries.countP (!·.target.isNative)
  fallbacks : stats.fallbacks = if c = .interpreter then 0 else stats.interpreted

namespace CallStats

variable {c : Convention} {entries : List (Entry β σ)}

theorem Counts.cons {stats : CallStats} (h : stats.Counts c entries) (entry : Entry β σ) :
    (stats.count c entry.target).Counts c (entry :: entries) := by
  obtain ⟨hnative, hinterpreted, hfallbacks⟩ := h
  unfold count
  cases ht : entry.target.isNative with
  | true =>
    refine ⟨?_, ?_, hfallbacks⟩
    · simp [countNative, ht, hnative]
    · simp [countNative, ht, hinterpreted]
  | false =>
    refine ⟨?_, ?_, ?_⟩
    · simp [countInterpreted, ht, hnative]
    · simp [countInterpreted, ht, hinterpreted]
    · cases c <;> simp_all [countInterpreted, Convention.usesNative]

theorem Counts.native_eq_zero {stats : CallStats} (h : stats.Counts .interpreter entries)
    (hentries : ∀ entry ∈ entries, entry.Dispatched .interpreter) : stats.native = 0 := by
  rw [h.native, List.countP_eq_zero]
  intro entry hmem
  rw [(hentries entry hmem).isNative_eq_false]
  exact Bool.false_ne_true

/-- **Every entry is native or interpreted.** -/
theorem Counts.total {stats : CallStats} (h : stats.Counts c entries) : stats.total = entries.length := by
  rw [CallStats.total, h.interpreted, h.native, List.length_eq_countP_add_countP (·.target.isNative), Nat.add_comm]
  simp

/-- Fewer entries than there are 64-bit words are counted in such words without overflow. -/
theorem Counts.fits {stats : CallStats} (h : stats.Counts c entries) (hfew : entries.length < UInt64.size) :
    stats.Fits := by
  have htotal : stats.total < UInt64.size := h.total ▸ hfew
  have hfallbacks : stats.fallbacks ≤ stats.interpreted := by
    rw [h.fallbacks]
    split
    · exact Nat.zero_le _
    · exact Nat.le_refl _
  have hinterpreted : stats.interpreted < UInt64.size := Nat.lt_of_le_of_lt (Nat.le_add_right _ _) htotal
  have hnative : stats.native < UInt64.size := Nat.lt_of_le_of_lt (Nat.le_add_left _ _) htotal
  exact ⟨hinterpreted, hnative, Nat.lt_of_le_of_lt hfallbacks hinterpreted, htotal⟩

/-- Entries counted in turn on top of entries counted are all of them counted. -/
theorem Counts.foldr {stats : CallStats} (h : stats.Counts c entries) : ∀ entered : List (Entry β σ),
    (entered.foldr (fun entry stats => stats.count c entry.target) stats).Counts c (entered ++ entries)
  | []               => h
  | entry :: entered => (h.foldr entered).cons entry

end CallStats

/-! ## What a step of a run enters -/

theorem Context.advance_call_of_ok {cx : Context β σ} {f : Frame β σ} {s s' : CallState σ} {index : Nat}
    {entry : Entry β σ} (h : f.placeCall cx index s = (.ok entry, s')) (k : Except RuntimeError Unit → Body σ) :
    ∃ passed under, cx.advance f s (.call index) k = .placed entry passed under (.call index k) s' :=
  ⟨_, _, by simp only [advance, h]; rfl⟩

theorem Context.advance_callWith_of_ok {cx : Context β σ} (f : Frame β σ) {s s' : CallState σ} {index : Nat}
    {ws : Array Word} {entry : Entry β σ} (h : Frame.placeCallWith cx index ws s = (.ok entry, s'))
    (k : Except RuntimeError Word → Body σ) :
    ∃ passed under, cx.advance f s (.callWith index ws) k = .placed entry passed under (.callWith index ws k) s' :=
  ⟨_, _, by simp only [advance, h]; rfl⟩

/-- Why a frame is refused a call before a body is entered: the index is unknown, words are missing, their number is
wrong, the stack has no room for them, or the nesting counter is at its limit. -/
inductive Frame.Refuses (cx : Context β σ) (f : Frame β σ) (s : CallState σ) : Answered σ → Prop
  | unknown {index : Nat} (hindex : cx.module.function? index = none) :
      Refuses cx f s ⟨.call index, Except.error (.unknownFunction index)⟩
  | missing {index : Nat} {callee : Function β σ} (hindex : cx.module.function? index = some callee)
      (hmissing : f.available s.stack < callee.arity) :
      Refuses cx f s ⟨.call index, Except.error .stackUnderflow⟩
  | tooDeep {index : Nat} {callee : Function β σ} (hindex : cx.module.function? index = some callee)
      (harity : callee.arity ≤ f.available s.stack) (hlevels : cx.maxDepth ≤ s.nesting) :
      Refuses cx f s ⟨.call index, Except.error (.recursionLimit cx.maxDepth)⟩
  | unknownWith {index : Nat} {args : Array Word} (hindex : cx.module.function? index = none) :
      Refuses cx f s ⟨.callWith index args, Except.error (.unknownFunction index)⟩
  | wrongCount {index : Nat} {args : Array Word} {callee : Function β σ}
      (hindex : cx.module.function? index = some callee) (hcount : args.size ≠ callee.arity) :
      Refuses cx f s ⟨.callWith index args, Except.error (.arityMismatch callee.name callee.arity args.size)⟩
  | noRoom {index : Nat} {args : Array Word} {callee : Function β σ}
      (hindex : cx.module.function? index = some callee) (hcount : args.size = callee.arity)
      (hneeded : cx.convention.onStack callee = true) (hfull : s.stack.limit < s.stack.depth + args.size) :
      Refuses cx f s ⟨.callWith index args, Except.error (.stackOverflow s.stack.limit)⟩
  | tooDeepWith {index : Nat} {args : Array Word} {callee : Function β σ}
      (hindex : cx.module.function? index = some callee) (hcount : args.size = callee.arity)
      (hroom : cx.convention.onStack callee = true → s.stack.depth + args.size ≤ s.stack.limit)
      (hlevels : cx.maxDepth ≤ s.nesting) :
      Refuses cx f s ⟨.callWith index args, Except.error (.recursionLimit cx.maxDepth)⟩

namespace Moment

variable {cx : Context β σ} {f : Function β σ} {args : Array Word} {m : Moment β σ}

/-- A callee that is attempted is entered when the counter is below its limit. -/
theorem entries_attempt (cx : Context β σ) (m : Moment β σ) (more next : Nat) (entry : Entry β σ)
    (passed under : List Word) (callers : List (Caller β σ)) (s : CallState σ) :
    (s.nesting < cx.maxDepth ∧
      (m.attempt cx more next entry passed under callers s).entries = entry :: m.entries ∧
      (m.attempt cx more next entry passed under callers s).frames.length = callers.length + 1) ∨
    (cx.maxDepth ≤ s.nesting ∧ (m.attempt cx more next entry passed under callers s).entries = m.entries ∧
      (m.attempt cx more next entry passed under callers s).frames.length = callers.length) := by
  unfold attempt
  by_cases hlevels : s.nesting < cx.maxDepth
  · rw [if_pos hlevels]
    exact .inl ⟨hlevels, rfl, by rw [frames, List.length_cons, List.length_map]⟩
  · rw [if_neg hlevels]
    exact .inr ⟨Nat.le_of_not_lt hlevels, entries_leave .., by rw [frames_leave, List.length_map]⟩

/-- **A step enters a body just when it opens a frame**, and then it enters one, the way the convention says. -/
theorem entries_step (cx : Context β σ) (f : Function β σ) (args : Array Word) (m : Moment β σ) :
    ((m.step cx f args).frames.length ≤ m.frames.length ∧ (m.step cx f args).entries = m.entries) ∨
    (∃ entry, (m.step cx f args).frames.length = m.frames.length + 1 ∧ entry.Dispatched cx.convention ∧
      (m.step cx f args).entries = entry :: m.entries) := by
  have hstep := stepped cx f args m
  generalize m.step cx f args = m' at hstep ⊢
  cases hstep with
  | ended => exact .inl ⟨Nat.le_refl _, rfl⟩
  | finished | refused => exact .inl ⟨Nat.zero_le _, rfl⟩
  | @invoked more next _ entry s hstage _ hplaced =>
    have hframes : m.frames.length = 0 := by rw [frames, hstage]; rfl
    rw [hframes]
    rcases entries_attempt cx m more next entry args.toList m.state.stack.words [] s with ⟨-, he, hf⟩ | ⟨-, he, hf⟩
    · exact .inr ⟨entry, hf, hplaced.dispatched, he⟩
    · exact .inl ⟨Nat.le_of_eq hf, he⟩
  | left hstage =>
    rw [frames_of_stage hstage, frames_leave, List.length_cons]
    exact .inl ⟨Nat.le_succ _, entries_leave ..⟩
  | answered hstage _ =>
    rw [frames_of_stage hstage]
    exact .inl ⟨Nat.le_refl _, rfl⟩
  | @called more next active _ _ callers entry passed under waiting s hstage hadvance =>
    obtain ⟨_, _, -, -, hplaced, -, -⟩ := Context.advance_placed_spec hadvance
    have hframes : m.frames.length = callers.length + 1 := by
      rw [frames_of_stage hstage, List.length_cons, List.length_map]
    rw [hframes]
    rcases entries_attempt cx m more next entry passed under (⟨active, waiting⟩ :: callers) s with
      ⟨-, he, hf⟩ | ⟨-, he, hf⟩
    · exact .inr ⟨entry, hf, hplaced.dispatched, he⟩
    · exact .inl ⟨Nat.le_of_eq hf, he⟩

/-- Every callee entered so far was entered the way the convention says. -/
theorem dispatched_step {c : Convention} (hc : cx.convention = c) (h : ∀ entry ∈ m.entries, entry.Dispatched c) :
    ∀ entry ∈ (m.step cx f args).entries, entry.Dispatched c := by
  subst hc
  rcases entries_step cx f args m with ⟨-, he⟩ | ⟨entry, -, hentry, he⟩ <;> rw [he]
  · exact h
  · exact List.forall_mem_cons.2 ⟨hentry, h⟩

theorem Tallied.counts {c : Convention} {before : CallStats} {entries : List (Entry β σ)} (h : m.Tallied c before)
    (hbefore : before.Counts c entries) : m.state.stats.Counts c (m.entries ++ entries) := by
  rw [h]
  exact hbefore.foldr m.entries

/-- **What a step counts**: nothing, unless it opens a frame, and then the one body it enters. -/
theorem Tallied.counted_step {before : CallStats} (h : m.Tallied cx.convention before) (f : Function β σ)
    (args : Array Word) :
    ((m.step cx f args).frames.length ≤ m.frames.length ∧ (m.step cx f args).entries = m.entries ∧
      (m.step cx f args).state.stats = m.state.stats) ∨
    (∃ entry, (m.step cx f args).frames.length = m.frames.length + 1 ∧
      (m.step cx f args).entries = entry :: m.entries ∧
      (m.step cx f args).state.stats = m.state.stats.count cx.convention entry.target) := by
  have h' : (m.step cx f args).Tallied cx.convention before := h.step
  unfold Tallied at h h'
  rcases entries_step cx f args m with ⟨hframes, he⟩ | ⟨entry, hframes, -, he⟩
  · rw [he, ← h] at h'
    exact .inl ⟨hframes, he, h'⟩
  · rw [he, List.foldr_cons, ← h] at h'
    exact .inr ⟨entry, hframes, he, h'⟩

section Calls

variable {more next : Nat} {active : OpenFrame β σ} {op : Op σ} {k : op.Answer → Body σ} {callers : List (Caller β σ)}

/-- A call that has its arguments in place enters its callee, unless the counter is at its limit. -/
theorem step_placed_cases {entry : Entry β σ} {passed under : List Word} {waiting : Waiting σ} {s : CallState σ}
    (hstage : m.stage = .inside more next active (.step op k) callers)
    (ha : cx.advance active.frame m.state op k = .placed entry passed under waiting s) :
    (m.state.nesting < cx.maxDepth ∧ (m.step cx f args).entries = entry :: m.entries) ∨
    (cx.maxDepth ≤ m.state.nesting ∧ (m.step cx f args).entries = m.entries ∧
      (m.step cx f args).answers =
        (waiting.resume (.error (.recursionLimit cx.maxDepth)) (s.truncate entry.floor)).1 :: m.answers) := by
  have hs : s.nesting = m.state.nesting := by rw [Context.rest_of_placed ha]
  rw [step_placed hstage ha, attempt, ← hs]
  by_cases hlevels : s.nesting < cx.maxDepth
  · rw [if_pos hlevels]
    exact .inl ⟨hlevels, rfl⟩
  · rw [if_neg hlevels]
    exact .inr ⟨Nat.le_of_not_lt hlevels, rfl, rfl⟩

/-- **A call that is refused enters no body**, and its frame gets the error for an answer. -/
theorem step_of_refuses (f : Function β σ) (args : Array Word)
    (hstage : m.stage = .inside more next active (.step op k) callers) {a : Answered σ}
    (h : active.frame.Refuses cx m.state a) (hop : a.op = op) :
    (m.step cx f args).entries = m.entries ∧ (m.step cx f args).answers = a :: m.answers := by
  have hanswered : ∀ {body}, cx.advance active.frame m.state op k = .answered a body active.frame m.state →
      (m.step cx f args).entries = m.entries ∧ (m.step cx f args).answers = a :: m.answers := by
    intro body ha
    rw [step_answered hstage ha]
    exact ⟨rfl, rfl⟩
  subst hop
  cases h with
  | unknown hindex => exact hanswered (by simp only [Context.advance, Frame.placeCall, hindex]; rfl)
  | missing hindex hmissing =>
    exact hanswered (by simp only [Context.advance, Frame.placeCall, hindex, if_pos hmissing]; rfl)
  | unknownWith hindex => exact hanswered (by simp only [Context.advance, Frame.placeCallWith, hindex]; rfl)
  | wrongCount hindex hcount =>
    exact hanswered (by simp only [Context.advance, Frame.placeCallWith, hindex, if_neg hcount]; rfl)
  | @noRoom index ws callee hindex hcount hneeded hfull =>
    rcases Entry.placed_fromWords cx.convention callee ws m.state with ⟨_, _, -, -, hroom⟩ | ⟨hp, -⟩
    · exact absurd (hroom hneeded) (Nat.not_le_of_lt hfull)
    · exact hanswered (by simp only [Context.advance, Frame.placeCallWith, hindex, if_pos hcount, hp]; rfl)
  | @tooDeep index callee hindex harity hlevels =>
    obtain ⟨_, _, hp⟩ : ∃ entry s, active.frame.placeCall cx index m.state = (.ok entry, s) :=
      ⟨_, _, by simp only [Frame.placeCall, hindex, if_neg (Nat.not_lt_of_le harity)]; rfl⟩
    obtain ⟨_, _, ha⟩ := Context.advance_call_of_ok hp k
    rcases step_placed_cases hstage ha with ⟨hlt, -⟩ | ⟨-, h⟩
    · exact absurd hlevels (Nat.not_le_of_lt hlt)
    · exact h
  | @tooDeepWith index ws callee hindex hcount hroom hlevels =>
    rcases Entry.placed_fromWords cx.convention callee ws m.state with ⟨entry, s, hp, -, -⟩ | ⟨-, hneeded, hfull⟩
    · obtain ⟨_, _, ha⟩ := Context.advance_callWith_of_ok active.frame
        (show Frame.placeCallWith cx index ws m.state = (.ok entry, s) by
          simp only [Frame.placeCallWith, hindex, if_pos hcount, hp]) k
      rcases step_placed_cases hstage ha with ⟨hlt, -⟩ | ⟨-, h⟩
      · exact absurd hlevels (Nat.not_le_of_lt hlt)
      · exact h
    · exact absurd (hroom hneeded) (Nat.not_le_of_lt hfull)

/-- **A call that is not refused enters the function it names.** -/
theorem step_of_not_refuses (f : Function β σ) (args : Array Word)
    (hstage : m.stage = .inside more next active (.step op k) callers) {index : Nat}
    (hop : op = .call index ∨ ∃ ws, op = .callWith index ws)
    (h : ∀ a, active.frame.Refuses cx m.state a → a.op ≠ op) :
    ∃ entry, (m.step cx f args).entries = entry :: m.entries ∧ cx.module.function? index = some entry.function := by
  rcases hop with rfl | ⟨ws, rfl⟩
  · rcases Frame.placeCall_cases cx active.frame index m.state with
      ⟨hindex, -⟩ | ⟨_, hindex, hmissing, -⟩ | ⟨callee, entry, s, hindex, harity, hp, hplaced⟩
    · exact absurd rfl (h _ (.unknown hindex))
    · exact absurd rfl (h _ (.missing hindex hmissing))
    · obtain ⟨_, _, ha⟩ := Context.advance_call_of_ok hp k
      rcases step_placed_cases hstage ha with ⟨-, he⟩ | ⟨hlevels, -⟩
      · exact ⟨entry, he, by rw [hplaced.function, hindex]⟩
      · exact absurd rfl (h _ (.tooDeep hindex harity hlevels))
  · rcases Frame.placeCallWith_cases cx index ws m.state with
      ⟨hindex, -⟩ | ⟨_, hindex, hcount, -⟩ | ⟨_, hindex, hcount, hneeded, hfull, -⟩ |
        ⟨callee, entry, s, hindex, hcount, hroom, hp, hplaced⟩
    · exact absurd rfl (h _ (.unknownWith hindex))
    · exact absurd rfl (h _ (.wrongCount hindex hcount))
    · exact absurd rfl (h _ (.noRoom hindex hcount hneeded hfull))
    · obtain ⟨_, _, ha⟩ := Context.advance_callWith_of_ok active.frame hp k
      rcases step_placed_cases hstage ha with ⟨-, he⟩ | ⟨hlevels, -⟩
      · exact ⟨entry, he, by rw [hplaced.function, hindex]⟩
      · exact absurd rfl (h _ (.tooDeepWith hindex hcount hroom hlevels))

end Calls

end Moment
/-- What a step of a run counts: nothing, unless it opens a frame, and then the one body it enters.  A call that is
refused counts nothing, and any other call enters the function it names. -/
structure Moment.Counted (cx : Context β σ) (mo mo' : Moment β σ) : Prop where
  step : (mo'.frames.length ≤ mo.frames.length ∧ mo'.entries = mo.entries ∧ mo'.state.stats = mo.state.stats) ∨
    (∃ entry, mo'.frames.length = mo.frames.length + 1 ∧ mo'.entries = entry :: mo.entries ∧
      mo'.state.stats = mo.state.stats.count cx.convention entry.target)
  refused : ∀ {more next active op k callers}, mo.stage = .inside more next active (.step op k) callers →
    ∀ a, active.frame.Refuses cx mo.state a → a.op = op →
      mo'.entries = mo.entries ∧ mo'.state.stats = mo.state.stats ∧ mo'.answers = a :: mo.answers
  entered : ∀ {more next active op k callers}, mo.stage = .inside more next active (.step op k) callers →
    ∀ index, (op = .call index ∨ ∃ ws, op = .callWith index ws) →
      (∀ a, active.frame.Refuses cx mo.state a → a.op ≠ op) →
      ∃ entry, mo'.entries = entry :: mo.entries ∧ cx.module.function? index = some entry.function ∧
        mo'.state.stats = mo.state.stats.count cx.convention entry.target

theorem Moment.Tallied.counted {cx : Context β σ} {f : Function β σ} {args : Array Word} {m : Moment β σ}
    {before : CallStats} (h : m.Tallied cx.convention before) : m.Counted cx (m.step cx f args) where
  step := h.counted_step f args
  refused := by
    intro more next active op k callers hstage a ha hop
    obtain ⟨he, hanswers⟩ := step_of_refuses f args hstage ha hop
    refine ⟨he, ?_, hanswers⟩
    rcases h.counted_step f args with ⟨-, -, hstats⟩ | ⟨entry, -, he', -⟩
    · exact hstats
    · exact absurd (he.symm.trans he') (List.ne_cons_self)
  entered := by
    intro more next active op k callers hstage index hop ha
    obtain ⟨entry, he, hindex⟩ := step_of_not_refuses f args hstage hop ha
    refine ⟨entry, he, hindex, ?_⟩
    rcases h.counted_step f args with ⟨-, he', -⟩ | ⟨entry', -, he', hstats⟩
    · exact absurd (he'.symm.trans he) (List.ne_cons_self)
    · obtain rfl : entry = entry' := (List.cons.inj (he.symm.trans he')).1
      exact hstats

namespace Machine

/-! ## What an operation enters -/

/-- The run that an operation begins unless it is refused: the index of the function and the arguments. -/
def Operation.run? (m : Machine β σ) : Operation β σ → Option (Nat × Array Word)
  | .run index                  => some (index, #[])
  | .runWith index args         => some (index, args)
  | .runEntry                   => (m.module.bind Module.entryIndex?).map (·, #[])
  | .prepare | .load _ | .reset => none

/-- An operation enters these callees, the latest first: those its run has entered when it is over, and none when it is
refused or is no run. -/
inductive Enters (m : Machine β σ) (op : Operation β σ) (w : World σ) : List (Entry β σ) → Prop
  | none (hnone : ∀ index args, op.run? m = some (index, args) → m.moment index args w 0 = none) : Enters m op w []
  | run {index : Nat} {args : Array Word} {n : Nat} {mo : Moment β σ} {r : Except RuntimeError Word}
      (hrun : op.run? m = some (index, args)) (hmo : m.moment index args w n = some mo) (hended : mo.stage = .ended r) :
      Enters m op w mo.entries

/-- A new machine has come to be `m` by these operations, in which these callees were entered, the latest first. -/
inductive Recorded (config : MachineConfig) (interpreter : Interpreter β σ) :
    List (Performed β σ) → List (Entry β σ) → Machine β σ → Prop
  | new : Recorded config interpreter [] [] (.new config interpreter)
  | next {past : List (Performed β σ)} {entries entered : List (Entry β σ)} {m : Machine β σ}
      (before : Recorded config interpreter past entries m) (op : Operation β σ) (w : World σ)
      (henters : m.Enters op w entered) :
      Recorded config interpreter (⟨op, (m.perform op w).1⟩ :: past) (entered ++ entries) (m.perform op w).2.1

variable {m : Machine β σ} {op : Operation β σ} {w : World σ}

theorem runWith_of_runnable_error {index : Nat} {args : Array Word} {e : MachineError}
    (h : m.runnable index args.size = .error e) : m.runWith index args w = (.error e, m, w) := by
  rw [runWith, h]

theorem moment_eq_none {index : Nat} {args : Array Word} {n : Nat} :
    m.moment index args w n = none ↔ ∃ e, m.runnable index args.size = .error e := by
  unfold moment
  cases m.runnable index args.size with
  | error e => exact ⟨fun _ => ⟨e, rfl⟩, fun _ => rfl⟩
  | ok mf => exact ⟨fun h => (by cases h), fun ⟨_, h⟩ => (by cases h)⟩

theorem entryIndex?_eq_some {module : Module β σ} {index : Nat} :
    module.entryIndex? = some index ↔ 0 < module.size ∧ index = module.size - 1 := by
  unfold Module.entryIndex?
  split <;> simp <;> omega

theorem runEntry_of_run? {index : Nat} {args : Array Word} (h : Operation.run? m .runEntry = some (index, args))
    (w : World σ) : args = #[] ∧ m.runEntry w = m.runWith index #[] w := by
  simp only [Operation.run?, Option.map_eq_some_iff, Option.bind_eq_some_iff, Prod.mk.injEq] at h
  obtain ⟨_, ⟨module, hmodule, hentry⟩, rfl, rfl⟩ := h
  obtain ⟨hsize, rfl⟩ := entryIndex?_eq_some.1 hentry
  refine ⟨rfl, ?_⟩
  rcases m.runEntry_cases w with ⟨hready, he⟩ | ⟨-, hm, -⟩ | ⟨_, -, hm, hempty, -⟩ | ⟨_, -, hm, -, he⟩
  · have hrefused : m.runnable (module.size - 1) (#[] : Array Word).size = .error .notInitialized := by
      simp only [runnable, hready]
      rfl
    rw [he, runWith_of_runnable_error hrefused]
  · rw [hmodule] at hm
    cases hm
  · obtain rfl := Option.some.inj (hmodule.symm.trans hm)
    omega
  · obtain rfl := Option.some.inj (hmodule.symm.trans hm)
    exact he

/-- **An operation that begins a run leaves what the run leaves.** -/
theorem perform_of_run? {index : Nat} {args : Array Word} (h : op.run? m = some (index, args)) (w : World σ) :
    (m.perform op w).2 = (m.runWith index args w).2 := by
  cases op with
  | run i =>
    cases h
    rfl
  | runWith i ws =>
    cases h
    rfl
  | runEntry =>
    obtain ⟨rfl, he⟩ := runEntry_of_run? h w
    exact congrArg Prod.snd he
  | _ => cases h

/-- An operation that begins no run counts nothing. -/
theorem stats_perform_of_run?_eq_none (h : op.run? m = none) (w : World σ) :
    (m.perform op w).2.1.stats = m.stats := by
  cases op with
  | prepare => rcases m.prepare_cases w with ⟨-, he⟩ | ⟨_, -, -, he⟩ | ⟨-, -, he⟩ <;> rw [perform, he]
  | load module => rcases m.load_cases w module with ⟨-, he⟩ | ⟨-, -, he⟩ | ⟨-, -, he⟩ <;> rw [perform, he]
  | reset => rfl
  | runEntry =>
    rcases m.runEntry_cases w with ⟨-, he⟩ | ⟨-, -, he⟩ | ⟨_, -, -, -, he⟩ | ⟨module, -, hm, hsize, -⟩
    · rw [perform, he]
    · rw [perform, he]
    · rw [perform, he]
    · have hentry := entryIndex?_eq_some.2 ⟨hsize, rfl⟩
      rw [Operation.run?, hm, Option.bind_some, hentry] at h
      cases h
  | _ => cases h

/-- **What an operation enters is one list of callees.** -/
theorem exists_enters (m : Machine β σ) (op : Operation β σ) (w : World σ) :
    ∃ entered, ∀ other, m.Enters op w other ↔ other = entered := by
  by_cases hnone : ∀ index args, op.run? m = some (index, args) → m.moment index args w 0 = none
  · refine ⟨[], fun other => ⟨fun h => ?_, fun h => h ▸ .none hnone⟩⟩
    cases h with
    | none => rfl
    | run hrun hmo =>
      obtain ⟨e, he⟩ := moment_eq_none.1 (hnone _ _ hrun)
      rw [moment_eq_none.2 ⟨e, he⟩] at hmo
      cases hmo
  · simp only [not_forall] at hnone
    obtain ⟨index, args, hrun, hsome⟩ := hnone
    obtain ⟨mf, hrunnable⟩ : ∃ mf, m.runnable index args.size = .ok mf := by
      cases hr : m.runnable index args.size with
      | error e => exact absurd (moment_eq_none.2 ⟨e, hr⟩) hsome
      | ok mf => exact ⟨mf, rfl⟩
    obtain ⟨n, mo, r, hmo, hended⟩ := exists_moment_ended w hrunnable
    refine ⟨mo.entries, fun other => ⟨fun h => ?_, fun h => h ▸ .run hrun hmo hended⟩⟩
    cases h with
    | none hnone => exact absurd (hnone _ _ hrun) hsome
    | @run _ _ n' mo' r' hrun' hmo' hended' =>
      obtain ⟨rfl, rfl⟩ := Prod.mk.inj (Option.some.inj (hrun.symm.trans hrun'))
      rw [moment_of_runnable hrunnable] at hmo hmo'
      obtain rfl := Option.some.inj hmo
      obtain rfl := Option.some.inj hmo'
      rw [Moment.ended_unique hended' hended]

theorem dispatched_moment {index : Nat} {args : Array Word} {n : Nat} {mo : Moment β σ}
    (h : m.moment index args w n = some mo) : ∀ entry ∈ mo.entries, entry.Dispatched m.config.callStyle := by
  refine moment_induction (P := fun mo => ∀ entry ∈ mo.entries, entry.Dispatched m.config.callStyle) ?_ ?_ h
  · intro module f _ entry hmem
    cases hmem
  · intro module f mo _ hmo
    exact Moment.dispatched_step rfl hmo

/-- **The counters after an operation are those before it with what it enters counted.** -/
theorem Enters.counts {entered entries : List (Entry β σ)} (h : m.Enters op w entered)
    (hbefore : m.stats.Counts m.config.callStyle entries) :
    (∀ entry ∈ entered, entry.Dispatched m.config.callStyle) ∧
      (m.perform op w).2.1.stats.Counts m.config.callStyle (entered ++ entries) := by
  cases h with
  | none hnone =>
    refine ⟨List.forall_mem_nil _, ?_⟩
    have hstats : (m.perform op w).2.1.stats = m.stats := by
      cases hrun : op.run? m with
      | none => exact stats_perform_of_run?_eq_none hrun w
      | some run =>
        obtain ⟨e, he⟩ := moment_eq_none.1 (hnone _ _ hrun)
        rw [perform_of_run? hrun, runWith_of_runnable_error he]
    rw [hstats]
    exact hbefore
  | run hrun hmo hended =>
    refine ⟨dispatched_moment hmo, ?_⟩
    obtain ⟨module, f, hrunnable, -⟩ := moment_spec hmo
    rw [perform_of_run? hrun, runWith_of_ended hrunnable hmo hended, outcome_machine]
    exact (tallied_moment hmo).counts hbefore

variable {config : MachineConfig} {interpreter : Interpreter β σ} {past : List (Performed β σ)}
  {entries : List (Entry β σ)}

theorem Recorded.history (h : Recorded config interpreter past entries m) : History config interpreter past m := by
  induction h with
  | new => exact .new
  | next _ op w _ ih => exact ih.next op w

theorem History.exists_recorded (h : History config interpreter past m) :
    ∃ entries, Recorded config interpreter past entries m := by
  induction h with
  | new => exact ⟨[], .new⟩
  | @next _ m _ op w ih =>
    obtain ⟨entries, hentries⟩ := ih
    obtain ⟨entered, hentered⟩ := m.exists_enters op w
    exact ⟨_, hentries.next op w ((hentered entered).2 rfl)⟩

/-- **The counters after any operations are the entries made in them**, each made the way the convention says. -/
theorem Recorded.counts (h : Recorded config interpreter past entries m) :
    (∀ entry ∈ entries, entry.Dispatched config.callStyle) ∧ m.stats.Counts config.callStyle entries := by
  induction h with
  | new =>
    refine ⟨List.forall_mem_nil _, rfl, rfl, ?_⟩
    split <;> rfl
  | next before op w henters ih =>
    have hsettings := before.history.orderly.settings
    rw [← hsettings] at ih ⊢
    obtain ⟨hentered, hcounts⟩ := henters.counts ih.2
    exact ⟨List.forall_mem_append.2 ⟨hentered, ih.1⟩, hcounts⟩

/-- **What the counters say.**  Whatever was asked of a machine, each body was entered natively just when the convention
is not `interpreter` and its function has a native entry, and found its arguments in registers just when it was entered
natively and the convention passes them there; the counters are the numbers of native and of interpreted entries so far,
and interpreted ones are fallbacks unless the convention is `interpreter`, which has neither.  So it is after every
operation, and at every moment of a run; and as long as there were fewer entries than there are 64-bit words, each
counter fits in such a word.  A step of a run counts nothing but the one body it enters, whatever becomes of that body; a
call that is refused enters none. -/
theorem History.counters_are_entries (h : History config interpreter past m) :
    (∃ entries, Recorded config interpreter past entries m) ∧
    (∀ op w, ∃ entered, ∀ other, m.Enters op w other ↔ other = entered) ∧
    ∀ entries, Recorded config interpreter past entries m →
      (∀ entry ∈ entries, entry.Dispatched config.callStyle) ∧ m.stats.Counts config.callStyle entries ∧
      (config.callStyle = .interpreter → m.stats.native = 0) ∧ (entries.length < UInt64.size → m.stats.Fits) ∧
      ∀ index args w n mo, m.moment index args w n = some mo →
        (∀ entry ∈ mo.entries, entry.Dispatched config.callStyle) ∧
        mo.state.stats.Counts config.callStyle (mo.entries ++ entries) ∧
        ((mo.entries ++ entries).length < UInt64.size → mo.state.stats.Fits) ∧
        ∃ module mo', m.module = some module ∧ m.moment index args w (n + 1) = some mo' ∧
          mo.Counted (m.context module) mo' := by
  refine ⟨h.exists_recorded, m.exists_enters, fun entries hentries => ?_⟩
  obtain ⟨hdispatched, hcounts⟩ := hentries.counts
  refine ⟨hdispatched, hcounts, fun hc => ?_, hcounts.fits, fun index args w n mo hmo => ?_⟩
  · rw [hc] at hdispatched hcounts
    exact hcounts.native_eq_zero hdispatched
  · have htallied := tallied_moment hmo
    have hdispatched' := dispatched_moment hmo
    rw [h.orderly.settings] at htallied hdispatched'
    refine ⟨hdispatched', htallied.counts hcounts, (htallied.counts hcounts).fits, ?_⟩
    obtain ⟨module, f, hrunnable, hmo'⟩ := moment_spec hmo
    refine ⟨module, _, (runnable_spec hrunnable).1, moment_of_runnable hrunnable (n + 1), ?_⟩
    rw [Function.iterate_succ_apply', ← hmo']
    have hcx : mo.Tallied (m.context module).convention m.stats := tallied_moment hmo
    exact hcx.counted

/-- A function that is interpreted calls one that has a native entry twice. -/
theorem History.counters_are_entries_differences :
    ∃ (past : List (Performed (Body Unit) Unit)) (m : Machine (Body Unit) Unit) (entries : List (Entry (Body Unit) Unit)),
      History (.withConvention .operandStack) .ofPrograms past m ∧
      Recorded (.withConvention .operandStack) .ofPrograms past entries m ∧
      entries.countP (·.target.isNative) = 2 ∧ entries.countP (!·.target.isNative) = 1 ∧ m.stats.fallbacks = 1 := by
  have h : History (.withConvention .operandStack) (.ofPrograms : Interpreter (Body Unit) Unit) _ _ :=
    ((History.new.next .prepare ⟨#[], ()⟩).next (.load (.ofPrograms "programs" samplePrograms (· == 0)))
      ⟨#[], ()⟩).next (.runWith 1 #[9]) ⟨#[], ()⟩
  obtain ⟨⟨entries, hentries⟩, -, hcounted⟩ := counters_are_entries h
  obtain ⟨-, hcounts, -⟩ := hcounted entries hentries
  refine ⟨_, _, entries, h, hentries, hcounts.native.symm.trans ?_, hcounts.interpreted.symm.trans ?_, ?_⟩
  · decide +kernel
  · decide +kernel
  · decide +kernel

end Machine
end MixedMode
