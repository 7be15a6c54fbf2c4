import Mathlib.Data.List.Induction
import MixedMode.Proofs.Accounting
/-!
# EventLog — a run logs what happens in it

A run that is not refused logs its start; then, invocation after invocation, the callees that were interpreted for want
of a native entry, in the order in which they were entered, and the word that the invocation returned; and last, if it
returns, its end.  What has been logged is known at every moment of a run (`Moment.Told`): a step logs the callee it
enters, or the invocation that returns with it, or nothing (`Moment.Told.step`).  So the log of a run is read off its
entries and its results (`Machine.log_tells_the_run`).
-/
namespace MixedMode

variable {β σ : Type}

/-! ## What is logged of a run -/

namespace Event

def isFallback : Event → Bool
  | fellBack .. => true
  | _           => false

/-- The number of the iteration whose end an event reports. -/
def iteration? : Event → Option Nat
  | iterated number _ => some number
  | _                 => none

end Event

/-- What is logged when a callee is entered, if anything is. -/
def Entry.fallback? (c : Convention) (entry : Entry β σ) : Option Event :=
  if c ≠ .interpreter ∧ entry.target.isNative = false then some (.fellBack entry.function.name c) else none

/-- An invocation that has returned: the callees entered in it, in the order of their entry, and the word. -/
structure Invocation (β σ : Type) where
  entered : List (Entry β σ)
  result : Word

namespace Invocation

/-- What is logged of an invocation that is iteration `number`. -/
def told (c : Convention) (number : Nat) (i : Invocation β σ) : List Event :=
  i.entered.filterMap (Entry.fallback? c) ++ [.iterated number i.result]

/-- What is logged of invocations one after the other. -/
def allTold (c : Convention) (done : List (Invocation β σ)) : List Event := (done.mapIdx (told c)).flatten

/-- What a run returns that ends after these invocations. -/
def lastResult (done : List (Invocation β σ)) : Word := (done.map (·.result)).getLastD 0

/-- A run of `total` invocations comes to this result when these have returned and these callees were entered since. -/
def Completes (total : Nat) (done : List (Invocation β σ)) (entered : List (Entry β σ)) :
    Except RuntimeError Word → Prop
  | .ok word => done.length = total ∧ entered = [] ∧ word = lastResult done
  | .error _ => done.length < total

theorem allTold_concat (c : Convention) (done : List (Invocation β σ)) (i : Invocation β σ) :
    allTold c (done ++ [i]) = allTold c done ++ told c done.length i := by
  rw [allTold, List.mapIdx_concat, List.flatten_concat]
  rfl

theorem lastResult_concat (done : List (Invocation β σ)) (i : Invocation β σ) :
    lastResult (done ++ [i]) = i.result := by
  rw [lastResult, List.map_append, List.map_singleton, List.getLastD_concat]

end Invocation

/-- What is logged at the end of a run: nothing if it failed. -/
def Function.closing (f : Function β σ) (stats : CallStats) : Except MachineError Word → List Event
  | .ok word => [.finished f.name word stats]
  | .error _ => []

theorem CallState.events_countEntry (s : CallState σ) (c : Convention) (entry : Entry β σ) :
    (s.countEntry c entry.function entry.target).events.toList = s.events.toList ++ (entry.fallback? c).toList := by
  unfold countEntry Entry.fallback?
  simp only [← Convention.usesNative_iff]
  cases entry.target.isNative with
  | true => simp
  | false => cases c.usesNative <;> simp

namespace Moment

/-! ## What has been logged at a moment -/

def log (m : Moment β σ) : List Event := m.state.events.toList

section

variable (cx : Context β σ) (f : Function β σ) (args : Array Word)

/-- A run comes from the moment `m` to the moment `m'`, and enters these callees on the way, in this order. -/
structure Enters (m : Moment β σ) (entered : List (Entry β σ)) (m' : Moment β σ) : Prop where
  leads : Leads cx f args m m'
  entries : m'.entries = entered.reverse ++ m.entries

/-- These invocations have returned when a run comes to this moment: each began when the one before it had returned. -/
inductive Returned (start : Moment β σ) : List (Invocation β σ) → Moment β σ → Prop
  | none : Returned start [] start
  | next {done : List (Invocation β σ)} {m m' : Moment β σ} {more : Nat} {last : Word} {i : Invocation β σ}
      (before : Returned start done m) (hbegins : m.stage = .between (more + 1) done.length last)
      (henters : m.Enters cx f args i.entered m') (hreturns : m'.stage = .between more (done.length + 1) i.result) :
      Returned start (done ++ [i]) m'

/-- After the invocations that have returned another one is under way, with `more` to follow; it has entered these
callees, and the log tells of all of them. -/
structure UnderWay (start : Moment β σ) (more : Nat) (done : List (Invocation β σ)) (entered : List (Entry β σ))
    (m : Moment β σ) : Prop where
  began : ∃ m₀ last, Returned cx f args start done m₀ ∧ m₀.stage = .between (more + 1) done.length last ∧
    m₀.Enters cx f args entered m
  log : m.log = start.log ++
    (Invocation.allTold cx.convention done ++ entered.filterMap (Entry.fallback? cx.convention))

/-- How far a run of `total` invocations has come: those that have returned, the callees entered since, and what the
log tells of them. -/
inductive Told (total : Nat) (start m : Moment β σ) : Prop
  | between {more : Nat} {done : List (Invocation β σ)}
      (hstage : m.stage = .between more done.length (Invocation.lastResult done))
      (hreturned : Returned cx f args start done m) (htotal : done.length + more = total)
      (hlog : m.log = start.log ++ Invocation.allTold cx.convention done)
  | inside {more : Nat} {done : List (Invocation β σ)} {entered : List (Entry β σ)} {active : OpenFrame β σ}
      {body : Body σ} {callers : List (Caller β σ)} (hstage : m.stage = .inside more done.length active body callers)
      (hunder : UnderWay cx f args start more done entered m) (htotal : done.length + (more + 1) = total)
  | returned {done : List (Invocation β σ)} {m₀ : Moment β σ}
      (hstage : m.stage = .ended (.ok (Invocation.lastResult done))) (hreturned : Returned cx f args start done m₀)
      (henters : m₀.Enters cx f args [] m) (htotal : done.length = total)
      (hlog : m.log = start.log ++ Invocation.allTold cx.convention done)
  | failed {more : Nat} {done : List (Invocation β σ)} {entered : List (Entry β σ)} {e : RuntimeError}
      (hstage : m.stage = .ended (.error e)) (hunder : UnderWay cx f args start more done entered m)
      (htotal : done.length + (more + 1) = total)

end

variable {cx : Context β σ} {f : Function β σ} {args : Array Word} {start m m' : Moment β σ} {total more : Nat}
  {done : List (Invocation β σ)} {entered : List (Entry β σ)}

theorem Enters.refl (m : Moment β σ) : m.Enters cx f args [] m := ⟨.refl m, rfl⟩

/-- The callees of a run in the order of their entry. -/
theorem Returned.entries (h : Returned cx f args start done m) :
    m.entries = (done.flatMap (·.entered)).reverse ++ start.entries := by
  induction h with
  | none => rfl
  | next before hbegins henters hreturns ih =>
    rw [henters.entries, ih, List.flatMap_append, List.flatMap_singleton, List.reverse_append, List.append_assoc]

namespace UnderWay

theorem begin {last : Word} (hreturned : Returned cx f args start done m)
    (hstage : m.stage = .between (more + 1) done.length last)
    (hlog : m.log = start.log ++ Invocation.allTold cx.convention done) :
    UnderWay cx f args start more done [] m :=
  ⟨⟨m, last, hreturned, hstage, .refl m⟩, by rw [hlog, List.filterMap_nil, List.append_nil]⟩

/-- A step that enters no callee. -/
theorem same (h : UnderWay cx f args start more done entered m) (hstep : m.step cx f args = m')
    (hentries : m'.entries = m.entries) (hevents : m'.state.events = m.state.events) :
    UnderWay cx f args start more done entered m' := by
  obtain ⟨⟨m₀, last, hreturned, hbegins, hleads, he⟩, hlog⟩ := h
  refine ⟨⟨m₀, last, hreturned, hbegins, hleads.trans ⟨1, hstep⟩, hentries.trans he⟩, ?_⟩
  rw [Moment.log, hevents]
  exact hlog

/-- A step that enters one. -/
theorem enter (h : UnderWay cx f args start more done entered m) (hstep : m.step cx f args = m') {entry : Entry β σ}
    (hentries : m'.entries = entry :: m.entries)
    (hevents : m'.log = m.log ++ (entry.fallback? cx.convention).toList) :
    UnderWay cx f args start more done (entered ++ [entry]) m' := by
  obtain ⟨⟨m₀, last, hreturned, hbegins, hleads, he⟩, hlog⟩ := h
  refine ⟨⟨m₀, last, hreturned, hbegins, hleads.trans ⟨1, hstep⟩, ?_⟩, ?_⟩
  · rw [hentries, he, List.reverse_concat, List.cons_append]
  · rw [hevents, hlog, List.filterMap_append, List.filterMap_cons, List.filterMap_nil]
    cases entry.fallback? cx.convention <;> simp

end UnderWay

theorem told_start (cx : Context β σ) (f : Function β σ) (args : Array Word) (total : Nat) (s : CallState σ) :
    Told cx f args total (.start total s) (.start total s) := by
  have hstage : (Moment.start total s : Moment β σ).stage =
      .between total ([] : List (Invocation β σ)).length (Invocation.lastResult ([] : List (Invocation β σ))) := rfl
  exact .between hstage .none (Nat.zero_add total) (List.append_nil _).symm

theorem log_leave_cons (m : Moment β σ) (more next floor : Nat) (r : Except RuntimeError Word) (s : CallState σ)
    (c : Caller β σ) (callers : List (Caller β σ)) :
    (m.leave more next floor r s (c :: callers)).state.events = s.events := by
  show (c.waiting.resume r (s.truncate floor)).2.2.events = _
  rw [Waiting.rest_resume]
  rfl

/-- When a callee is left its caller goes on, or the invocation is over; then its number and its word are logged. -/
theorem told_leave (h : UnderWay cx f args start more done entered m) (htotal : done.length + (more + 1) = total)
    {floor : Nat} {r : Except RuntimeError Word} {s : CallState σ} {callers : List (Caller β σ)}
    (hstep : m.step cx f args = m.leave more done.length floor r s callers) (hs : s.events = m.state.events) :
    Told cx f args total start (m.leave more done.length floor r s callers) := by
  cases callers with
  | nil =>
    cases r with
    | error e => exact .failed rfl (h.same hstep rfl hs) htotal
    | ok word =>
      obtain ⟨⟨m₀, last, hreturned, hbegins, hleads, he⟩, hlog⟩ := h
      have hreturned' := hreturned.next (i := ⟨entered, word⟩) hbegins ⟨hleads.trans ⟨1, hstep⟩, he⟩ rfl
      have hlength : (done ++ [(⟨entered, word⟩ : Invocation β σ)]).length = done.length + 1 := List.length_append
      have hpush : (m.leave more done.length floor (.ok word) s []).log = m.log ++ [.iterated done.length word] := by
        rw [Moment.log, Moment.log, ← hs]
        exact Array.toList_push
      refine .between (show _ = Stage.between more _ _ from ?_) hreturned' (by omega) ?_
      · rw [Invocation.lastResult_concat, hlength]
        rfl
      · rw [hpush, hlog, Invocation.allTold_concat, Invocation.told]
        simp only [List.append_assoc]
  | cons c callers => exact .inside rfl (h.same hstep rfl ((log_leave_cons ..).trans hs)) htotal

theorem told_attempt (h : UnderWay cx f args start more done entered m) (htotal : done.length + (more + 1) = total)
    {entry : Entry β σ} {passed under : List Word} {s : CallState σ} {callers : List (Caller β σ)}
    (hstep : m.step cx f args = m.attempt cx more done.length entry passed under callers s)
    (hs : s.events = m.state.events) :
    Told cx f args total start (m.attempt cx more done.length entry passed under callers s) := by
  rcases Nat.lt_or_ge s.nesting cx.maxDepth with hlevels | hlevels
  · rw [attempt_of_lt hlevels] at hstep ⊢
    refine .inside rfl (h.enter hstep rfl ?_) htotal
    rw [Moment.log, Moment.log, ← hs]
    exact CallState.events_countEntry s cx.convention entry
  · rw [attempt_of_le hlevels] at hstep ⊢
    exact told_leave h htotal hstep hs

/-- **A step logs what it does**: the callee that it enters, the invocation that returns with it, or nothing. -/
theorem Told.step (h : Told cx f args total start m) : Told cx f args total start (m.step cx f args) := by
  cases h with
  | @between more done hstage hreturned htotal hlog =>
    cases more with
    | zero =>
      have hstep : m.step cx f args = _ := step_between_zero hstage
      have henters : m.Enters cx f args [] (m.step cx f args) := ⟨⟨1, rfl⟩, by rw [hstep]; rfl⟩
      refine .returned (congrArg stage hstep) hreturned henters htotal ?_
      rw [hstep]
      exact hlog
    | succ more =>
      have hbegins : UnderWay cx f args start more done [] m := .begin hreturned hstage hlog
      rcases Entry.placed_fromOutside cx.convention f args m.state with ⟨entry, s, he, hp, -⟩ | ⟨he, -⟩
      · have hstep := step_between_ok hstage he
        rw [hstep]
        exact told_attempt hbegins htotal hstep (by rw [hp.rest])
      · have hstep : m.step cx f args = _ := step_between_error hstage he
        rw [hstep]
        exact .failed rfl (hbegins.same hstep rfl rfl) htotal
  | @inside more done entered active body callers hstage hunder htotal =>
    cases body with
    | done r =>
      have hstep : m.step cx f args = m.leave more done.length active.floor r m.state.shallower callers :=
        step_done hstage
      rw [hstep]
      exact told_leave hunder htotal hstep rfl
    | step op k =>
      cases ha : cx.advance active.frame m.state op k with
      | answered a body frame s =>
        have hstep : m.step cx f args = _ := step_answered hstage ha
        rw [hstep]
        have hevents : s.events = m.state.events := by rw [Context.rest_of_answered ha]
        exact .inside rfl (hunder.same hstep rfl hevents) htotal
      | placed entry passed under waiting s =>
        obtain ⟨_, _, -, -, hp, -, -⟩ := Context.advance_placed_spec ha
        have hstep : m.step cx f args = m.attempt cx more done.length entry passed under _ s := step_placed hstage ha
        rw [hstep]
        exact told_attempt hunder htotal hstep (by rw [hp.rest])
  | returned hstage hreturned henters htotal hlog =>
    rw [step_ended hstage]
    exact .returned hstage hreturned henters htotal hlog
  | failed hstage hunder htotal =>
    rw [step_ended hstage]
    exact .failed hstage hunder htotal

/-- **When a run is over** all its invocations have returned, or one has failed, and the log tells of all of them. -/
theorem Told.of_ended {r : Except RuntimeError Word} (h : Told cx f args total start m) (hended : m.stage = .ended r) :
    ∃ done entered m₀, Returned cx f args start done m₀ ∧ m₀.Enters cx f args entered m ∧
      Invocation.Completes total done entered r ∧
      m.log = start.log ++
        (Invocation.allTold cx.convention done ++ entered.filterMap (Entry.fallback? cx.convention)) := by
  cases h with
  | between hstage | inside hstage => rw [hended] at hstage; cases hstage
  | @returned done m₀ hstage hreturned henters htotal hlog =>
    obtain rfl := Stage.ended.inj (hended.symm.trans hstage)
    exact ⟨done, [], m₀, hreturned, henters, ⟨htotal, rfl, rfl⟩, by rw [hlog, List.filterMap_nil, List.append_nil]⟩
  | @failed more done entered e hstage hunder htotal =>
    obtain rfl := Stage.ended.inj (hended.symm.trans hstage)
    obtain ⟨⟨m₀, _, hreturned, -, henters⟩, hlog⟩ := hunder
    exact ⟨done, entered, m₀, hreturned, henters, show done.length < total by omega, hlog⟩

end Moment

namespace Invocation

/-! ## What a log tells -/

theorem iteration?_of_mem_fallbacks {c : Convention} {entered : List (Entry β σ)} {e : Event}
    (h : e ∈ entered.filterMap (Entry.fallback? c)) : e.iteration? = none ∧ e.isFallback = true := by
  obtain ⟨entry, -, he⟩ := List.mem_filterMap.1 h
  unfold Entry.fallback? at he
  split at he <;> cases he
  exact ⟨rfl, rfl⟩

theorem iterations_fallbacks (c : Convention) (entered : List (Entry β σ)) :
    (entered.filterMap (Entry.fallback? c)).filterMap Event.iteration? = [] :=
  List.filterMap_eq_nil_iff.2 fun _ he => (iteration?_of_mem_fallbacks he).1

theorem filter_fallbacks (c : Convention) (entered : List (Entry β σ)) :
    (entered.filterMap (Entry.fallback? c)).filter Event.isFallback = entered.filterMap (Entry.fallback? c) :=
  List.filter_eq_self.2 fun _ he => (iteration?_of_mem_fallbacks he).2

/-- **Iterations are numbered from 0, without a gap.** -/
theorem iterations_allTold (c : Convention) (done : List (Invocation β σ)) :
    (allTold c done).filterMap Event.iteration? = List.range done.length := by
  induction done using List.reverseRecOn with
  | nil => rfl
  | append_singleton done i ih =>
    rw [allTold_concat, List.filterMap_append, ih, told, List.filterMap_append, iterations_fallbacks,
      List.length_append, List.length_singleton, List.range_succ]
    rfl

/-- **Every fallback is told**, in the order of the entries. -/
theorem fallbacks_allTold (c : Convention) (done : List (Invocation β σ)) :
    (allTold c done).filter Event.isFallback = (done.flatMap (·.entered)).filterMap (Entry.fallback? c) := by
  induction done using List.reverseRecOn with
  | nil => rfl
  | append_singleton done i ih =>
    rw [allTold_concat, List.filter_append, ih, told, List.filter_append, filter_fallbacks, List.flatMap_append,
      List.filterMap_append, List.flatMap_singleton]
    exact congrArg _ (List.append_nil _)

end Invocation

/-- The end of a run is neither an iteration nor a fallback. -/
theorem Function.closing_tells (f : Function β σ) (stats : CallStats) (r : Except MachineError Word) :
    (f.closing stats r).filterMap Event.iteration? = [] ∧ (f.closing stats r).filter Event.isFallback = [] := by
  cases r <;> exact ⟨rfl, rfl⟩

/-- The entries that are told are those that are counted as fallbacks. -/
theorem CallStats.fallbacks_foldr (c : Convention) (before : CallStats) (entries : List (Entry β σ)) :
    (entries.foldr (fun entry stats => stats.count c entry.target) before).fallbacks =
      before.fallbacks + (entries.filterMap (Entry.fallback? c)).length := by
  induction entries with
  | nil => rfl
  | cons entry entries ih =>
    rw [List.foldr_cons, List.filterMap_cons, count, Entry.fallback?]
    simp only [← Convention.usesNative_iff]
    cases entry.target.isNative with
    | true => simpa [countNative] using ih
    | false => cases c.usesNative <;> simpa [countInterpreted, ← Nat.add_assoc] using ih

namespace Machine

variable {m : Machine β σ} {index : Nat} {args : Array Word} {w : World σ} {module : Module β σ} {f : Function β σ}

/-- **At every moment of a run the log tells what has happened.** -/
theorem told_moment (hrun : m.runnable index args.size = .ok (module, f)) {n : Nat} {mo : Moment β σ}
    (h : m.moment index args w n = some mo) :
    Moment.Told (m.context module) f args m.config.loopCount.toNat
      (.start m.config.loopCount.toNat (m.startState f index w)) mo := by
  rw [moment_of_runnable hrun] at h
  obtain rfl := Option.some.inj h
  exact Function.Iterate.rec (Moment.Told (m.context module) f args m.config.loopCount.toNat _)
    (Moment.told_start ..) (fun mo hmo => hmo.step) n

theorem events_outcome (m : Machine β σ) (f : Function β σ) (r : Except RuntimeError Word) (s : CallState σ) :
    (m.outcome f r s).2.2.events.toList = s.events.toList ++ f.closing s.stats (m.outcome f r s).1 := by
  cases r with
  | error e => exact (List.append_nil _).symm
  | ok word => exact Array.toList_push

theorem events_startState (m : Machine β σ) (f : Function β σ) (index : Nat) (w : World σ) :
    (m.startState f index w).events.toList =
      w.events.toList ++ [.started f.name index m.config.callStyle m.config.loopCount.toNat] :=
  Array.toList_push

/-- **The log of a run tells what happened in it.**  A run that is refused logs nothing.  Any other logs its start; for
each invocation that has returned, one after the other, the callees entered in it that were interpreted though the
convention uses native entries, in the order of their entry, then the number and the word of the invocation; of the
invocation that failed, if one did, such callees; and the end of the run just when it returns, with what it answers and
the counters that it leaves.  So the iterations are numbered from 0 without a gap, and there are as many fallbacks in
the log as were counted. -/
theorem log_tells_the_run (m : Machine β σ) (index : Nat) (args : Array Word) (w : World σ) :
    (∀ e, m.runnable index args.size = .error e → m.runWith index args w = (.error e, m, w)) ∧
    (∀ module f, m.runnable index args.size = .ok (module, f) →
      ∃ (done : List (Invocation β σ)) (entered : List (Entry β σ)) (m₀ last : Moment β σ) (n : Nat)
        (r : Except RuntimeError Word) (emitted : List Event),
        Moment.Returned (m.context module) f args (.start m.config.loopCount.toNat (m.startState f index w)) done m₀ ∧
        m₀.Enters (m.context module) f args entered last ∧
        m.moment index args w n = some last ∧ last.stage = .ended r ∧
        last.entries.reverse = done.flatMap (·.entered) ++ entered ∧
        (m.runWith index args w).1 = r.mapError (.runtime f.name) ∧
        Invocation.Completes m.config.loopCount.toNat done entered r ∧
        (m.runWith index args w).2.2.events.toList = w.events.toList ++ emitted ∧
        emitted = .started f.name index m.config.callStyle m.config.loopCount.toNat ::
          (Invocation.allTold m.config.callStyle done ++ entered.filterMap (Entry.fallback? m.config.callStyle) ++
            f.closing (m.runWith index args w).2.1.stats (m.runWith index args w).1) ∧
        emitted.filterMap Event.iteration? = List.range done.length ∧
        emitted.filter Event.isFallback = last.entries.reverse.filterMap (Entry.fallback? m.config.callStyle) ∧
        (m.runWith index args w).2.1.stats.fallbacks = m.stats.fallbacks + emitted.countP Event.isFallback) ∧
    (∀ name index c count, (Event.started name index c count).level = .debug ∧
      (Event.started name index c count).message = "run started") ∧
    (∀ name c, (Event.fellBack name c).level = .trace ∧ (Event.fellBack name c).target = "tandem::call") ∧
    (∀ number word, (Event.iterated number word).level = .trace ∧
      (Event.iterated number word).message = "iteration finished") ∧
    (∀ name word stats, (Event.finished name word stats).level = .debug ∧
      (Event.finished name word stats).message = "run finished") := by
  refine ⟨fun e => runWith_of_runnable_error, ?_, fun _ _ _ _ => ⟨rfl, rfl⟩, fun _ _ => ⟨rfl, rfl⟩,
    fun _ _ => ⟨rfl, rfl⟩, fun _ _ _ => ⟨rfl, rfl⟩⟩
  intro module f hrun
  obtain ⟨n, last, r, hmo, hended⟩ := exists_moment_ended w hrun
  obtain ⟨done, entered, m₀, hreturned, henters, hresult, hlog⟩ := (told_moment hrun hmo).of_ended hended
  have hentries : last.entries.reverse = done.flatMap (·.entered) ++ entered := by
    rw [henters.entries, hreturned.entries, List.reverse_append, List.reverse_reverse, Moment.start, List.append_nil,
      List.reverse_reverse]
  have hrunWith := runWith_of_ended hrun hmo hended
  have hstats : (m.runWith index args w).2.1.stats = last.state.stats := by rw [hrunWith, outcome_machine]
  have hevents : (m.runWith index args w).2.2.events.toList = last.state.events.toList ++
      f.closing (m.runWith index args w).2.1.stats (m.runWith index args w).1 := by
    rw [hstats, hrunWith, events_outcome]
  have hclosing := f.closing_tells (m.runWith index args w).2.1.stats (m.runWith index args w).1
  have hfallbacks : ∀ more : List Event, more.filter Event.isFallback = [] →
      (.started f.name index m.config.callStyle m.config.loopCount.toNat ::
        (Invocation.allTold m.config.callStyle done ++ entered.filterMap (Entry.fallback? m.config.callStyle) ++
          more)).filter Event.isFallback =
        last.entries.reverse.filterMap (Entry.fallback? m.config.callStyle) := by
    intro more hmore
    rw [List.filter_cons_of_neg Bool.false_ne_true, List.filter_append, List.filter_append, hmore, List.append_nil,
      Invocation.fallbacks_allTold, Invocation.filter_fallbacks, hentries, List.filterMap_append]
  refine ⟨done, entered, m₀, last, n, r, _, hreturned, henters, hmo, hended, hentries, ?_, hresult, ?_, rfl, ?_,
    hfallbacks _ hclosing.2, ?_⟩
  · rw [hrunWith, outcome_fst]
  · have hlog' : last.state.events.toList = (m.startState f index w).events.toList ++ _ := hlog
    rw [hevents, hlog', events_startState, List.append_assoc, List.append_assoc]
    rfl
  · rw [List.filterMap_cons, List.filterMap_append, List.filterMap_append, hclosing.1, Invocation.iterations_fallbacks,
      Invocation.iterations_allTold, List.append_nil, List.append_nil]
    rfl
  · rw [List.countP_eq_length_filter, hfallbacks _ hclosing.2, hstats, List.filterMap_reverse, List.length_reverse,
      tallied_moment hmo]
    exact CallStats.fallbacks_foldr m.config.callStyle m.stats last.entries

/-- Three iterations of a function that has no native entry and calls one that has. -/
theorem log_tells_the_run_differences : ∃ m : Machine (Body Unit) Unit,
    m = { ofPrograms .operandStack 16 samplePrograms (· == 0) with config.loopCount := 3 } ∧
    ∃ emitted : List Event, (m.runWith 1 #[9] ⟨#[], ()⟩).2.2.events.toList = emitted ∧
      emitted.filterMap Event.iteration? = [0, 1, 2] ∧ emitted.countP Event.isFallback = 3 := by
  refine ⟨_, rfl, ?_⟩
  obtain ⟨-, hruns, -⟩ := log_tells_the_run
    ({ ofPrograms .operandStack 16 samplePrograms (· == 0) with config.loopCount := 3 } : Machine (Body Unit) Unit)
    1 #[9] ⟨#[], ()⟩
  obtain ⟨done, entered, m₀, last, n, r, emitted, -, -, -, -, -, hanswer, hresult, hevents, -, hiterations, -,
    hcounted⟩ := hruns _ _ rfl
  have hword : (({ ofPrograms .operandStack 16 samplePrograms (· == 0) with config.loopCount := 3 } :
      Machine (Body Unit) Unit).runWith 1 #[9] ⟨#[], ()⟩).1.toOption = some 6 := by decide +kernel
  have hstats : (({ ofPrograms .operandStack 16 samplePrograms (· == 0) with config.loopCount := 3 } :
      Machine (Body Unit) Unit).runWith 1 #[9] ⟨#[], ()⟩).2.1.stats = ⟨3, 6, 3⟩ := by decide +kernel
  rw [hstats] at hcounted
  cases r with
  | error e =>
    rw [hanswer] at hword
    cases hword
  | ok word =>
    rw [hresult.1] at hiterations
    exact ⟨emitted, hevents.trans (List.nil_append _), hiterations, (hcounted.trans (Nat.zero_add _)).symm⟩

end Machine
end MixedMode
