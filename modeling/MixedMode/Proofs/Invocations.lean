import MixedMode.Proofs.LifeCycle
import MixedMode.Proofs.Unobserved
/-!
# Invocations — a run is so many invocations, one after the other

What an invocation comes to is settled at every moment of it: the frames that are open are left one after the other
(`Context.conclude`), and no step changes what that comes to.  So at every moment of a run it is known which invocations
have returned and what the one under way comes to (`Moment.Course`), and how many have begun (`Machine.begun`).  Each
begins on the stack that was there before the run; the first that fails is the last one
(`Machine.run_is_invocations`).
-/
namespace MixedMode

variable {β σ : Type}

/-! ## What an invocation under way comes to -/

namespace Context

variable (cx : Context β σ)

/-- What an invocation comes to when its innermost callee is left: each caller goes on from the outcome of the one above
it. -/
def unwind : List (Caller β σ) → Except RuntimeError Word → CallState σ → Except RuntimeError Word × CallState σ
  | [], r, s           => (r, s)
  | c :: callers, r, s =>
    match c.waiting.resume r s with
    | (_, body, s) =>
      match body.run (cx.perform (cx.enter cx.maxDepth)) c.opened.frame s with
      | (r, _, s) => unwind callers r (s.shallower.truncate c.opened.floor)

/-- What an invocation comes to whose innermost frame has still to do `body`. -/
def conclude (callers : List (Caller β σ)) (active : OpenFrame β σ) (body : Body σ) (s : CallState σ) :
    Except RuntimeError Word × CallState σ :=
  match body.run (cx.perform (cx.enter cx.maxDepth)) active.frame s with
  | (r, _, s) => cx.unwind callers r (s.shallower.truncate active.floor)

/-- What an invocation comes to that has the arguments of a callee in place. -/
def attempted (callers : List (Caller β σ)) (entry : Entry β σ) (s : CallState σ) :
    Except RuntimeError Word × CallState σ :=
  match Enter.leave (cx.enter cx.maxDepth) entry s with
  | (r, s) => cx.unwind callers r s

variable {cx} {callers : List (Caller β σ)} {active : OpenFrame β σ} {s : CallState σ}

/-- **An operation does not change what an invocation comes to.** -/
theorem conclude_step (op : Op σ) (k : op.Answer → Body σ) :
    cx.conclude callers active (.step op k) s =
      match cx.advance active.frame s op k with
      | .answered _ body frame s    => cx.conclude callers { active with frame } body s
      | .placed entry _ _ waiting s => cx.attempted (⟨active, waiting⟩ :: callers) entry s := by
  rw [conclude, run_step]
  cases cx.advance active.frame s op k <;> rfl

/-- **Nor does entering a callee.** -/
theorem conclude_entered (hlevels : s.nesting < cx.maxDepth) (entry : Entry β σ) (passed under : List Word) :
    cx.conclude callers ⟨entry.frame s.stack.depth, entry.floor, passed, under⟩ (cx.bodyOf entry.function entry.target)
        (s.countEntry cx.convention entry.function entry.target).deeper =
      cx.attempted callers entry s := by
  rw [conclude, attempted, Enter.leave, cx.enter_eq (Nat.le_add_left _ _), if_neg (Nat.not_le_of_lt hlevels)]
  dsimp only
  rw [CallState.stack_countEntry]

theorem attempted_of_le (hlevels : cx.maxDepth ≤ s.nesting) (entry : Entry β σ) :
    cx.attempted callers entry s =
      cx.unwind callers (.error (.recursionLimit cx.maxDepth)) (s.truncate entry.floor) := by
  rw [attempted, Enter.leave, cx.enter_refuses (.inr hlevels)]

end Context

/-! ## The course of a run -/

namespace Moment

variable {cx : Context β σ} {f : Function β σ} {args : Array Word} {total : Nat} {start : CallState σ}

/-- The next step begins an invocation. -/
def begins (m : Moment β σ) : Bool :=
  match m.stage with
  | .between (_ + 1) _ _ => true
  | _                    => false

/-- How far a run of `total` invocations has come, of which so many have begun. -/
inductive Course (cx : Context β σ) (f : Function β σ) (args : Array Word) (total : Nat) (start : CallState σ)
    (m : Moment β σ) : Nat → Prop
  /-- All that have begun have returned, and a word at the latest. -/
  | between {more : Nat} {words : List Word} (hstage : m.stage = .between more words.length (words.headD 0))
      (hreturned : Machine.Iterated cx f args start words m.state) (htotal : words.length + more = total) :
      Course cx f args total start m words.length
  /-- One is under way, begun in the state `s`. -/
  | inside {more : Nat} {words : List Word} {s : CallState σ} {active : OpenFrame β σ} {body : Body σ}
      {callers : List (Caller β σ)} (hstage : m.stage = .inside more words.length active body callers)
      (hreturned : Machine.Iterated cx f args start words s) (htotal : words.length + (more + 1) = total)
      (hconclude : cx.conclude callers active body m.state = cx.invoke f args s) :
      Course cx f args total start m (words.length + 1)
  | returned {words : List Word} (hstage : m.stage = .ended (.ok (words.headD 0)))
      (hreturned : Machine.Iterated cx f args start words m.state) (htotal : words.length = total) :
      Course cx f args total start m words.length
  /-- The one after those that have returned has failed. -/
  | failed {words : List Word} {s : CallState σ} {e : RuntimeError} (hstage : m.stage = .ended (.error e))
      (hreturned : Machine.Iterated cx f args start words s) (htotal : words.length < total)
      (hfailed : cx.invoke f args s = (.error e, m.state)) :
      Course cx f args total start m (words.length + 1)

theorem course_start (cx : Context β σ) (f : Function β σ) (args : Array Word) (total : Nat) (s : CallState σ) :
    (Moment.start total s : Moment β σ).Course cx f args total s 0 :=
  .between (show _ = Stage.between total ([] : List Word).length (([] : List Word).headD 0) from rfl) .none
    (Nat.zero_add total)

variable {m : Moment β σ} {more : Nat} {words : List Word} {s : CallState σ}

theorem course_leave (hreturned : Machine.Iterated cx f args start words s) (htotal : words.length + (more + 1) = total)
    {callers : List (Caller β σ)} {r : Except RuntimeError Word} {t : CallState σ} {floor : Nat}
    (h : cx.unwind callers r (t.truncate floor) = cx.invoke f args s) (m : Moment β σ) :
    Course cx f args total start (m.leave more words.length floor r t callers) (words.length + 1) := by
  cases callers with
  | nil =>
    cases r with
    | error e => exact .failed rfl hreturned (by omega) h.symm
    | ok w =>
      have htotal' : (w :: words).length + more = total := by
        rw [List.length_cons]
        omega
      exact .between rfl (hreturned.next h.symm) htotal'
  | cons c callers => exact .inside rfl hreturned htotal h

theorem course_attempt (hreturned : Machine.Iterated cx f args start words s)
    (htotal : words.length + (more + 1) = total) {callers : List (Caller β σ)} {entry : Entry β σ} {t : CallState σ}
    (h : cx.attempted callers entry t = cx.invoke f args s) (m : Moment β σ) (passed under : List Word) :
    Course cx f args total start (m.attempt cx more words.length entry passed under callers t) (words.length + 1) := by
  unfold attempt
  by_cases hlevels : t.nesting < cx.maxDepth
  · rw [if_pos hlevels]
    exact .inside rfl hreturned htotal ((Context.conclude_entered hlevels entry passed under).trans h)
  · rw [if_neg hlevels]
    refine course_leave hreturned htotal ?_ m
    rw [← Context.attempted_of_le (Nat.le_of_not_lt hlevels), h]

/-- **A step keeps a run on its course.** -/
theorem Course.step {count : Nat} (h : m.Course cx f args total start count) :
    (m.step cx f args).Course cx f args total start (count + m.begins.toNat) := by
  unfold begins
  cases h with
  | @between more words hstage hreturned htotal =>
    rw [hstage]
    cases more with
    | zero =>
      rw [step_between_zero hstage]
      exact .returned rfl hreturned htotal
    | succ more =>
      cases hp : Entry.fromOutside cx.convention f args m.state with
      | mk r s =>
        cases r with
        | error e =>
          rw [step_between_error hstage hp]
          exact .failed rfl hreturned (by omega) (by rw [Context.invoke, hp])
        | ok entry =>
          rw [step_between_ok hstage hp]
          exact course_attempt hreturned htotal (by rw [Context.invoke, hp]; rfl) m _ _
  | @inside more words s active body callers hstage hreturned htotal hconclude =>
    rw [hstage]
    cases body with
    | done r =>
      rw [step_done hstage]
      exact course_leave hreturned htotal hconclude m
    | step op k =>
      rw [Context.conclude_step] at hconclude
      cases ha : cx.advance active.frame m.state op k with
      -- what the invocation comes to is what the rest of the body makes of the answer, or of the callee's outcome
      | answered a body frame t =>
        rw [ha] at hconclude
        rw [step_answered hstage ha]
        exact .inside rfl hreturned htotal hconclude
      | placed entry passed under waiting t =>
        rw [ha] at hconclude
        rw [step_placed hstage ha]
        exact course_attempt hreturned htotal hconclude m _ _
  | returned hstage hreturned htotal =>
    rw [step_ended hstage, hstage]
    exact .returned hstage hreturned htotal
  | failed hstage hreturned htotal hfailed =>
    rw [step_ended hstage, hstage]
    exact .failed hstage hreturned htotal hfailed

end Moment
namespace Machine

/-! ## How many invocations begin -/

/-- How many invocations have begun in the first `n` steps of a run. -/
def begun (m : Machine β σ) (index : Nat) (args : Array Word) (w : World σ) (n : Nat) : Nat :=
  (List.range n).countP fun i => (m.moment index args w i).any Moment.begins

variable {m : Machine β σ} {index : Nat} {args : Array Word} {w : World σ} {module : Module β σ} {f : Function β σ}

theorem begun_succ {n : Nat} {mo : Moment β σ} (h : m.moment index args w n = some mo) :
    m.begun index args w (n + 1) = m.begun index args w n + mo.begins.toNat :=
  happened_succ h Moment.begins

/-- **Every moment of a run is on its course.** -/
theorem course_moment (hrun : m.runnable index args.size = .ok (module, f)) (w : World σ) : ∀ n : Nat,
    ∃ mo, m.moment index args w n = some mo ∧
      mo.Course (m.context module) f args m.config.loopCount.toNat (m.startState f index w)
        (m.begun index args w n)
  | 0     => ⟨_, moment_of_runnable hrun 0, Moment.course_start ..⟩
  | n + 1 => by
    obtain ⟨mo, hmo, hcourse⟩ := course_moment hrun w n
    refine ⟨_, moment_add hrun hmo 1, ?_⟩
    rw [begun_succ hmo]
    exact hcourse.step

/-- No invocation begins after a run is over. -/
theorem begun_of_ended (hrun : m.runnable index args.size = .ok (module, f)) {N : Nat} {mo : Moment β σ}
    {r : Except RuntimeError Word} (hmo : m.moment index args w N = some mo) (hended : mo.stage = .ended r) {n : Nat}
    (hn : N ≤ n) : m.begun index args w n = m.begun index args w N := by
  obtain ⟨k, rfl⟩ := Nat.exists_eq_add_of_le hn
  clear hn
  induction k with
  | zero => rfl
  | succ k ih =>
    have hstays : m.moment index args w (N + k) = some mo := by
      rw [moment_add hrun hmo, Moment.iterate_step_ended hended]
    have hbegins : mo.begins = false := by rw [Moment.begins, hended]
    rw [← Nat.add_assoc, begun_succ hstays, hbegins, ih]
    rfl

/-- Between two invocations of a run, as many have begun as have returned; the stack is that before the run, no frame is
open and the nesting counter stands at nothing. -/
theorem between_invocations (hrun : m.runnable index args.size = .ok (module, f)) {n more next : Nat} {mo : Moment β σ}
    {last : Word} (hmo : m.moment index args w n = some mo) (hstage : mo.stage = .between more next last) :
    m.begun index args w n = next ∧ mo.state.stack = m.stack ∧ mo.frames = [] ∧ mo.state.nesting = 0 := by
  have hframes : mo.frames = [] := by rw [Moment.frames, hstage]
  obtain ⟨mo', hmo', hcourse⟩ := course_moment hrun w n
  obtain rfl := Option.some.inj (hmo.symm.trans hmo')
  generalize m.begun index args w n = count at hcourse ⊢
  cases hcourse with
  | between hstage' hreturned _ =>
    obtain ⟨-, rfl, -⟩ := Stage.between.inj (hstage.symm.trans hstage')
    exact ⟨rfl, hreturned.stack_eq, hframes, hreturned.nesting_eq⟩
  | inside hstage' => rw [hstage] at hstage'; cases hstage'
  | returned hstage' => rw [hstage] at hstage'; cases hstage'
  | failed hstage' => rw [hstage] at hstage'; cases hstage'

/-- **A run comes to all its invocations, or to the first that fails.** -/
theorem invocations_of_runnable (hrun : m.runnable index args.size = .ok (module, f)) (hloop : m.config.loopCount ≠ 0)
    (w : World σ) :
    (∃ word words s, Iterated (m.context module) f args (m.startState f index w) (word :: words) s ∧
      (word :: words).length = m.config.loopCount.toNat ∧ (m.runWith index args w).1 = .ok word ∧
      ∃ N, ∀ n, N ≤ n → m.begun index args w n = m.config.loopCount.toNat) ∨
    (∃ words s e s', Iterated (m.context module) f args (m.startState f index w) words s ∧
      words.length < m.config.loopCount.toNat ∧ (m.context module).invoke f args s = (.error e, s') ∧
      (m.runWith index args w).1 = .error (.runtime f.name e) ∧
      ∃ N, ∀ n, N ≤ n → m.begun index args w n = words.length + 1) := by
  obtain ⟨N, mo, r, hmo, hended⟩ := exists_moment_ended w hrun
  have hbegun : ∀ n, N ≤ n → m.begun index args w n = m.begun index args w N :=
    fun n hn => begun_of_ended hrun hmo hended hn
  obtain ⟨mo', hmo', hcourse⟩ := course_moment hrun w N
  obtain rfl := Option.some.inj (hmo.symm.trans hmo')
  rw [runWith_of_ended hrun hmo hended, outcome_fst]
  generalize m.begun index args w N = count at hcourse hbegun
  cases hcourse with
  | between hstage' => rw [hended] at hstage'; cases hstage'
  | inside hstage' => rw [hended] at hstage'; cases hstage'
  | @returned words hstage' hreturned htotal =>
    obtain rfl := Stage.ended.inj (hended.symm.trans hstage')
    cases words with
    | nil => exact absurd (UInt64.toNat_inj.1 htotal.symm) hloop
    | cons word words => exact .inl ⟨word, words, mo.state, hreturned, htotal, rfl, N, htotal ▸ hbegun⟩
  | @failed words s e hstage' hreturned htotal hfailed =>
    obtain rfl := Stage.ended.inj (hended.symm.trans hstage')
    exact .inr ⟨words, s, e, mo.state, hreturned, htotal, hfailed, rfl, N, hbegun⟩

/-! ## Bodies that keep nothing -/

theorem iterate_of_error {cx : Context β σ} {e : RuntimeError} {s : CallState σ} (h : (cx.invoke f args s).1 = .error e)
    (more next : Nat) (last : Word) : iterate cx f args (more + 1) next last s = (.error e, (cx.invoke f args s).2) := by
  rw [iterate, ← Prod.eta (cx.invoke f args s), h]

/-- Invocations that all return the same and count the same. -/
theorem iterate_of_same {cx : Context β σ} {word : Word} {once : CallStats} {stack : OperandStack} {kept : σ}
    (h : ∀ s : CallState σ, s.stack = stack → s.kept = kept → s.nesting = 0 → (cx.invoke f args s).1 = .ok word ∧
      (cx.invoke f args s).2.stats = s.stats + once ∧ (cx.invoke f args s).2.kept = kept) :
    ∀ (more next : Nat) (s : CallState σ), s.stack = stack → s.kept = kept → s.nesting = 0 →
      (iterate cx f args more next word s).1 = .ok word ∧
      (iterate cx f args more next word s).2.stats = s.stats + more • once
  | 0, next, s, _, _, _                        => ⟨rfl, by rw [zero_nsmul, add_zero]; rfl⟩
  | more + 1, next, s, hstack, hkept, hnesting => by
    obtain ⟨hanswer, hstats, hkept'⟩ := h s hstack hkept hnesting
    have hstack' := cx.stack_invoke f args s
    have hnesting' := cx.nesting_invoke f args s
    rw [iterate]
    cases hinvoke : cx.invoke f args s with
    | mk r s' =>
      rw [hinvoke] at hanswer hstats hkept' hstack' hnesting'
      obtain rfl : r = .ok word := hanswer
      obtain ⟨hrest, hstats'⟩ := iterate_of_same h more (next + 1)
        { s' with events := s'.events.push (.iterated next word) } (hstack'.trans hstack) hkept'
        (hnesting'.trans hnesting)
      refine ⟨hrest, hstats'.trans ?_⟩
      have hstats : s'.stats = s.stats + once := hstats
      show s'.stats + more • once = s.stats + (more + 1) • once
      rw [hstats, add_assoc, ← succ_nsmul']

/-- A run of which every invocation comes to the same and counts the same. -/
theorem runWith_of_same (hrun : m.runnable index args.size = .ok (module, f)) {more : Nat}
    (hmore : m.config.loopCount.toNat = more + 1) {r : Except RuntimeError Word} {once : CallStats}
    (h : ∀ s : CallState σ, s.stack = m.stack → s.kept = w.kept → s.nesting = 0 →
      ((m.context module).invoke f args s).1 = r ∧
      ((m.context module).invoke f args s).2.stats = s.stats + once ∧
      ((m.context module).invoke f args s).2.kept = w.kept) :
    (m.runWith index args w).1 = r.mapError (.runtime f.name) ∧
      (m.runWith index args w).2.1.stats = m.stats + (if r.isOk then more + 1 else 1) • once := by
  rw [runWith_of_runnable hrun, outcome_fst, outcome_machine, hmore]
  cases r with
  | error e =>
    obtain ⟨hanswer, hstats, -⟩ := h (m.startState f index w) rfl rfl rfl
    rw [iterate_of_error hanswer]
    refine ⟨rfl, hstats.trans ?_⟩
    show m.stats + once = m.stats + 1 • once
    rw [one_nsmul]
  | ok word =>
    obtain ⟨hanswer, hstats⟩ := iterate_of_same h (more + 1) 0 (m.startState f index w) rfl rfl rfl
    exact ⟨congrArg (Except.mapError _) hanswer, hstats⟩

/-- **Where no body keeps anything, a run answers what one invocation does**, and counts that once or, if it returns, as
often as the loop count says. -/
theorem runWith_of_keepsNothing (hrun : m.runnable index args.size = .ok (module, f)) (hloop : m.config.loopCount ≠ 0)
    (hkeeps : module.KeepsNothing m.interpreter) (w : World σ) :
    ∃ (r : Except RuntimeError Word) (once : CallStats),
      (m.runWith index args w).1 = r.mapError (.runtime f.name) ∧
      (m.runWith index args w).2.1.stats =
        m.stats + (if r.isOk then m.config.loopCount.toNat else 1) • once ∧
      (({ m with config.loopCount := 1 } : Machine β σ).runWith index args w).1 = r.mapError (.runtime f.name) ∧
      (({ m with config.loopCount := 1 } : Machine β σ).runWith index args w).2.1.stats = m.stats + once := by
  obtain ⟨r, once, hsame⟩ := (m.context module).exists_invocation f args m.stack w.kept 0
  obtain ⟨more, hmore⟩ := Nat.exists_eq_succ_of_ne_zero fun h => hloop (UInt64.toNat_inj.1 h)
  obtain ⟨-, hindex, -⟩ := runnable_spec hrun
  have hsame' : ∀ s : CallState σ, s.stack = m.stack → s.kept = w.kept → s.nesting = 0 →
      ((m.context module).invoke f args s).1 = r ∧
      ((m.context module).invoke f args s).2.stats = s.stats + once ∧
      ((m.context module).invoke f args s).2.kept = w.kept := by
    intro s hstack hkept hnesting
    obtain ⟨hanswer, hstats⟩ := hsame s hstack hkept hnesting
    exact ⟨hanswer, hstats, (Context.kept_invoke hkeeps (Module.mem_of_function? hindex) args s).trans hkept⟩
  obtain ⟨hanswer, hstats⟩ := runWith_of_same hrun hmore hsame'
  have hsingle : ({ m with config.loopCount := 1 } : Machine β σ).config.loopCount.toNat = 0 + 1 := rfl
  have hrun' : ({ m with config.loopCount := 1 } : Machine β σ).runnable index args.size = .ok (module, f) := hrun
  obtain ⟨hanswer', hstats'⟩ := runWith_of_same hrun' hsingle hsame'
  refine ⟨r, once, hanswer, hmore ▸ hstats, hanswer', hstats'.trans ?_⟩
  rw [Nat.zero_add, ite_self, one_nsmul]

/-- **A run is so many invocations, one after the other.**  Each begins on the stack that was there before the run, with
no frame open and the nesting counter at nothing, whatever came of the ones before it.  The first that fails is the last
one, and its error is what the run answers; if none fails there are as many as the loop count says, and the run answers
the last word.  Where no body keeps anything, a run answers what a run of a single invocation does; it adds to each
counter what that one adds, as often as the loop count says, or once if that one fails. -/
theorem run_is_invocations (hready : m.ready = true) (hmodule : m.module = some module)
    (hindex : module.function? index = some f) (hcount : args.size = f.arity) (hloop : m.config.loopCount ≠ 0)
    (w : World σ) :
    (∀ n mo more next last, m.moment index args w n = some mo → mo.stage = .between more next last →
      m.begun index args w n = next ∧ mo.state.stack = m.stack ∧ mo.frames = [] ∧ mo.state.nesting = 0) ∧
    ((∃ word words s, Iterated (m.context module) f args (m.startState f index w) (word :: words) s ∧
        (word :: words).length = m.config.loopCount.toNat ∧ (m.runWith index args w).1 = .ok word ∧
        ∃ N, ∀ n, N ≤ n → m.begun index args w n = m.config.loopCount.toNat) ∨
      (∃ words s e s', Iterated (m.context module) f args (m.startState f index w) words s ∧
        words.length < m.config.loopCount.toNat ∧ (m.context module).invoke f args s = (.error e, s') ∧
        (m.runWith index args w).1 = .error (.runtime f.name e) ∧
        ∃ N, ∀ n, N ≤ n → m.begun index args w n = words.length + 1)) ∧
    (module.KeepsNothing m.interpreter → ∀ single : Machine β σ, single = { m with config.loopCount := 1 } →
      (m.runWith index args w).1 = (single.runWith index args w).1 ∧
      ∃ once, (single.runWith index args w).2.1.stats = m.stats + once ∧
        (∀ word, (single.runWith index args w).1 = .ok word →
          (m.runWith index args w).2.1.stats = m.stats + m.config.loopCount.toNat • once) ∧
        (∀ e, (single.runWith index args w).1 = .error e → (m.runWith index args w).2.1.stats = m.stats + once)) := by
  have hrun : m.runnable index args.size = .ok (module, f) := by
    simp only [runnable, hready, hmodule, hindex, hcount, if_true]
    rfl
  refine ⟨fun n mo more next last => between_invocations hrun, invocations_of_runnable hrun hloop w, ?_⟩
  rintro hkeeps single rfl
  obtain ⟨r, once, hanswer, hstats, hanswer', hstats'⟩ := runWith_of_keepsNothing hrun hloop hkeeps w
  rw [hanswer, hanswer', hstats, hstats']
  refine ⟨rfl, once, rfl, ?_, ?_⟩
  · intro word hr
    cases r with
    | error e => cases hr
    | ok word => rfl
  · intro e hr
    cases r with
    | error e => exact congrArg (m.stats + ·) (one_nsmul once)
    | ok word => cases hr

/-- Each of three invocations enters the interpreted function and, twice, the one with a native entry. -/
theorem run_is_invocations_differences : ∃ single m : Machine (Body Unit) Unit,
    single = ofPrograms .operandStack 16 samplePrograms (· == 0) ∧ m = { single with config.loopCount := 3 } ∧
    m.config.loopCount ≠ 0 ∧ (m.runWith 1 #[9] ⟨#[], ()⟩).1.toOption = some 6 ∧
    (m.runWith 1 #[9] ⟨#[], ()⟩).2.1.stats = ⟨3, 6, 3⟩ ∧ (single.runWith 1 #[9] ⟨#[], ()⟩).2.1.stats = ⟨1, 2, 1⟩ := by
  refine ⟨_, _, rfl, rfl, by decide, ?_⟩
  have hkeeps : (Module.ofPrograms "programs" samplePrograms (· == 0)).KeepsNothing .ofPrograms :=
    Module.keepsNothing_ofPrograms samplePrograms_avoid_keeps _
  obtain ⟨-, -, hstateless⟩ := @run_is_invocations _ _
    { ofPrograms .operandStack 16 samplePrograms (· == 0) with config.loopCount := 3 } 1 #[9]
    (.ofPrograms "programs" samplePrograms (· == 0)) _ rfl rfl rfl rfl (by decide) ⟨#[], ()⟩
  obtain ⟨hanswer, once, honce, hsucceeds, -⟩ :=
    hstateless hkeeps (ofPrograms .operandStack 16 samplePrograms (· == 0)) rfl
  have hword : ((ofPrograms .operandStack 16 samplePrograms (· == 0)).runWith 1 #[9] ⟨#[], ()⟩).1.toOption = some 6 := by
    decide +kernel
  have hcounted : ((ofPrograms .operandStack 16 samplePrograms (· == 0)).runWith 1 #[9] ⟨#[], ()⟩).2.1.stats =
      ⟨1, 2, 1⟩ := by decide +kernel
  have honce' : once = ⟨1, 2, 1⟩ := ((zero_add once).symm.trans honce.symm).trans hcounted
  refine ⟨(congrArg Except.toOption hanswer).trans hword, ?_, hcounted⟩
  cases hsingle : ((ofPrograms .operandStack 16 samplePrograms (· == 0)).runWith 1 #[9] ⟨#[], ()⟩).1 with
  | error e =>
    rw [hsingle] at hword
    cases hword
  | ok word =>
    rw [hsucceeds word hsingle, honce']
    decide +kernel

end Machine
end MixedMode
