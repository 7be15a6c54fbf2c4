import MixedMode.Proofs.Chain
/-!
# Tally — the counters of a run are its entries, counted

Nothing but the entry of a callee changes the counters, so at every moment they are those from before the run with each
entry so far counted in turn (`Machine.tallied_moment`).
-/
namespace MixedMode

variable {β σ : Type}

/-- One more entry. -/
def CallStats.count (stats : CallStats) (c : Convention) (target : CallTarget σ) : CallStats :=
  if target.isNative then stats.countNative else stats.countInterpreted c.usesNative

theorem CallStats.total_count (stats : CallStats) (c : Convention) (target : CallTarget σ) :
    (stats.count c target).total = stats.total + 1 := by
  unfold count
  split
  · exact total_countNative stats
  · exact total_countInterpreted stats _

theorem CallState.stats_countEntry (s : CallState σ) (c : Convention) (f : Function β σ) (target : CallTarget σ) :
    (s.countEntry c f target).stats = s.stats.count c target := by
  unfold countEntry CallStats.count
  by_cases ht : target.isNative = true
  · rw [if_pos ht, if_pos ht]
  · rw [if_neg ht, if_neg ht]
    cases hc : c.usesNative <;> rfl

namespace Moment

/-- The counters are `before` with each entry so far counted. -/
def Tallied (c : Convention) (before : CallStats) (m : Moment β σ) : Prop :=
  m.state.stats = m.entries.foldr (fun entry stats => stats.count c entry.target) before

variable {cx : Context β σ} {f : Function β σ} {args : Array Word} {before : CallStats} {m : Moment β σ}

theorem tallied_leave {c : Convention} (h : m.Tallied c before) (more next floor : Nat) (r : Except RuntimeError Word)
    {s : CallState σ} (hs : s.stats = m.state.stats) (callers : List (Caller β σ)) :
    (m.leave more next floor r s callers).Tallied c before := by
  have hs' : s.stats = m.entries.foldr (fun entry stats => stats.count c entry.target) before := hs.trans h
  cases callers with
  | nil => cases r <;> exact hs'
  | cons k callers => exact (congrArg CallState.stats (k.waiting.rest_resume r _)).trans hs'

theorem tallied_attempt (h : m.Tallied cx.convention before) (more next : Nat) (entry : Entry β σ)
    (passed under : List Word) (callers : List (Caller β σ)) {s : CallState σ} (hs : s.stats = m.state.stats) :
    (m.attempt cx more next entry passed under callers s).Tallied cx.convention before := by
  unfold attempt
  split
  · show (s.countEntry cx.convention entry.function entry.target).stats = _
    rw [CallState.stats_countEntry, hs, h, List.foldr_cons]
  · exact tallied_leave h more next _ _ hs callers

/-- **A step counts what it enters.** -/
theorem Tallied.step (h : m.Tallied cx.convention before) : (m.step cx f args).Tallied cx.convention before := by
  have hstep := stepped cx f args m
  generalize m.step cx f args = m' at hstep ⊢
  cases hstep with
  | ended | finished | refused => exact h
  | invoked _ _ hplaced => exact tallied_attempt h _ _ _ _ _ [] (by rw [hplaced.rest])
  | left => exact tallied_leave h _ _ _ _ (s := m.state.shallower) rfl _
  | answered _ hadvance => exact (congrArg CallState.stats (Context.rest_of_answered hadvance)).trans h
  | called _ hadvance =>
    obtain ⟨index, callee, -, -, hplaced, -, -⟩ := Context.advance_placed_spec hadvance
    exact tallied_attempt h _ _ _ _ _ _ (by rw [hplaced.rest])

theorem Tallied.total {c : Convention} (h : m.Tallied c before) :
    m.state.stats.total = before.total + m.entries.length := by
  rw [h]
  induction m.entries with
  | nil => rfl
  | cons entry entries ih =>
    rw [List.foldr_cons, CallStats.total_count, ih]
    rfl

end Moment

/-- **The counters of a run are its entries, counted.** -/
theorem Machine.tallied_moment {m : Machine β σ} {index : Nat} {args : Array Word} {w : World σ} {n : Nat}
    {mo : Moment β σ} (h : m.moment index args w n = some mo) : mo.Tallied m.config.callStyle m.stats :=
  moment_induction (fun _ _ _ => rfl) (fun _ _ _ _ hmo => hmo.step) h

end MixedMode
