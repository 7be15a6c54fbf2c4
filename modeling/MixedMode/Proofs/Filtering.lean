import MixedMode.Log.Filter
/-!
# Filtering — which level governs a target

A filter goes by the longest of its names that a target begins with (`Targets.governs_governing`).  The names of the
phases are such that a target begins with one of them at most (`Phase.Begins.unique`), so the order in which they were
listed makes no difference (`LogConfig.governs_targetsOver`) and a phase decides about its own targets only.  An event
is shown by the level for its phase (`LogConfig.shows_iff`).
-/
namespace MixedMode

/-! ## The rule of a filter -/

namespace Targets

/-- The rule of a filter: a target is governed by the longest listed name that it begins with, or by the default when it
begins with none. -/
inductive Governs (t : Targets) (target : String) : Level → Prop
  | directive {name : String} {l : Level} (mem : (name, l) ∈ t.directives) (begins : name.toList <+: target.toList)
      (longest : ∀ d ∈ t.directives, d.1.toList <+: target.toList → d.1.length ≤ name.length) : Governs t target l
  | default (none : ∀ d ∈ t.directives, ¬ d.1.toList <+: target.toList) : Governs t target t.default

theorem covers_iff (name target : String) : covers name target = true ↔ name.toList <+: target.toList :=
  List.isPrefixOf_iff_prefix

/-- Of the directives that were gone through, the one that is kept has the longest name. -/
theorem foldl_longer : ∀ (ds : List (String × Level)) (best : String × Level),
    ∃ c, ds.foldl longer (some best) = some c ∧ c ∈ best :: ds ∧ ∀ d ∈ best :: ds, d.1.length ≤ c.1.length
  | [], best      => ⟨best, rfl, .head _, fun d hd => by cases List.mem_singleton.1 hd; exact Nat.le_refl _⟩
  | d :: ds, best => by
    rw [List.foldl_cons, longer]
    split
    · rename_i hlt
      obtain ⟨c, hc, hmem, hlongest⟩ := foldl_longer ds d
      refine ⟨c, hc, .tail _ hmem, fun d' hd' => ?_⟩
      rcases List.mem_cons.1 hd' with rfl | hd'
      · exact Nat.le_trans (Nat.le_of_lt hlt) (hlongest d (.head _))
      · exact hlongest d' hd'
    · rename_i hle
      obtain ⟨c, hc, hmem, hlongest⟩ := foldl_longer ds best
      have hbest := hlongest best (.head _)
      refine ⟨c, hc, ?_, fun d' hd' => ?_⟩
      · rcases List.mem_cons.1 hmem with rfl | hmem
        · exact .head _
        · exact .tail _ (.tail _ hmem)
      · rcases List.mem_cons.1 hd' with rfl | hd'
        · exact hbest
        · rcases List.mem_cons.1 hd' with rfl | hd'
          · exact Nat.le_trans (Nat.le_of_not_lt hle) hbest
          · exact hlongest d' (.tail _ hd')

/-- **A filter keeps to the rule.** -/
theorem governs_governing (t : Targets) (target : String) : t.Governs target (t.governing target) := by
  have hmem : ∀ d, d ∈ t.directives.filter (fun d => covers d.1 target) ↔
      d ∈ t.directives ∧ d.1.toList <+: target.toList := fun d => by rw [List.mem_filter, covers_iff]
  unfold governing
  cases hcovering : t.directives.filter (fun d => covers d.1 target) with
  | nil =>
    refine .default fun d hd hbegins => ?_
    have : d ∈ t.directives.filter (fun d => covers d.1 target) := (hmem d).2 ⟨hd, hbegins⟩
    rw [hcovering] at this
    cases this
  | cons best ds =>
    obtain ⟨⟨name, l⟩, hkept, hin, hlongest⟩ := foldl_longer ds best
    rw [← hcovering] at hin hlongest
    rw [List.foldl_cons, longer, hkept]
    obtain ⟨hlisted, hbegins⟩ := (hmem _).1 hin
    exact .directive hlisted hbegins fun d hd hbegins => hlongest d ((hmem d).2 ⟨hd, hbegins⟩)

theorem mem_directives_withTarget (t : Targets) (name : String) (l : Level) (d : String × Level) :
    d ∈ (t.withTarget name l).directives ↔ (d ∈ t.directives ∧ d.1 ≠ name) ∨ d = (name, l) := by
  rw [withTarget, List.mem_append, List.mem_filter, List.mem_singleton, bne_iff_ne]

end Targets

/-! ## The names of the phases -/

namespace Phase

/-- The target begins with the name of the phase, taken as plain characters. -/
def Begins (p : Phase) (target : String) : Prop := p.target.toList <+: target.toList

instance (p : Phase) (target : String) : Decidable (p.Begins target) :=
  inferInstanceAs (Decidable (p.target.toList <+: target.toList))

theorem begins_target (p : Phase) : p.Begins p.target := List.prefix_rfl

/-- No phase has a name that another one's begins with. -/
theorem eq_of_begins_target {p q : Phase} : p.Begins q.target → p = q := by
  revert p q
  have h : ∀ p ∈ all, ∀ q ∈ all, p.Begins q.target → p = q := by decide +kernel
  exact fun {p q} => h p p.mem_all q q.mem_all

theorem target_injective : Function.Injective target := fun p _ h => eq_of_begins_target (h ▸ p.begins_target)

/-- **A target begins with the name of one phase at most.** -/
theorem Begins.unique {p q : Phase} {target : String} (hp : p.Begins target) (hq : q.Begins target) : p = q := by
  rcases List.prefix_or_prefix_of_prefix hp hq with h | h
  · exact eq_of_begins_target h
  · exact (eq_of_begins_target h).symm

end Phase

/-! ## The filter of a configuration -/

namespace LogConfig

/-- The filter with a directive for each of these phases, listed one after the other. -/
def targetsOver (c : LogConfig) (order : List Phase) : Targets :=
  order.foldl (fun t p => t.withTarget p.target (c.levelFor p)) (.withDefault c.global)

/-- The configuration with another override for one phase, or with none. -/
def withOverride (c : LogConfig) : Phase → Option Level → LogConfig
  | .loader, o => { c with loader := o }
  | .vm, o     => { c with vm := o }
  | .call, o   => { c with call := o }

theorem override?_withOverride (c : LogConfig) (p q : Phase) (o : Option Level) :
    (c.withOverride p o).override? q = if q = p then o else c.override? q := by
  cases p <;> cases q <;> rfl

theorem global_withOverride (c : LogConfig) (p : Phase) (o : Option Level) :
    (c.withOverride p o).global = c.global := by
  cases p <;> rfl

theorem levelFor_withOverride (c : LogConfig) (p q : Phase) (o : Option Level) :
    (c.withOverride p o).levelFor q = if q = p then o.getD c.global else c.levelFor q := by
  rw [levelFor, override?_withOverride, global_withOverride]
  split <;> rfl

/-- The directives after some more phases were listed: those from before, and one for each. -/
theorem mem_directives_foldl (c : LogConfig) (d : String × Level) : ∀ (order : List Phase) (t : Targets),
    (∀ d ∈ t.directives, ∃ p, d = (p.target, c.levelFor p)) →
    (d ∈ (order.foldl (fun t p => t.withTarget p.target (c.levelFor p)) t).directives ↔
      d ∈ t.directives ∨ ∃ p ∈ order, d = (p.target, c.levelFor p))
  | [], t, _              => by simp
  | p :: order, t, hphase => by
    have hphase' : ∀ d ∈ (t.withTarget p.target (c.levelFor p)).directives, ∃ p, d = (p.target, c.levelFor p) := by
      intro d hd
      rcases (t.mem_directives_withTarget _ _ d).1 hd with ⟨hd, -⟩ | hd
      · exact hphase d hd
      · exact ⟨p, hd⟩
    rw [List.foldl_cons, mem_directives_foldl c d order _ hphase', Targets.mem_directives_withTarget]
    constructor
    · rintro ((⟨hd, -⟩ | hd) | ⟨q, hq, hd⟩)
      · exact .inl hd
      · exact .inr ⟨p, .head _, hd⟩
      · exact .inr ⟨q, .tail _ hq, hd⟩
    · rintro (hd | ⟨q, hq, hd⟩)
      · -- a directive of the same name is replaced, by an equal one
        obtain ⟨q, hq⟩ := hphase d hd
        by_cases hname : d.1 = p.target
        · rw [hq] at hname
          rw [Phase.target_injective hname] at hq
          exact .inl (.inr hq)
        · exact .inl (.inl ⟨hd, hname⟩)
      · rcases List.mem_cons.1 hq with rfl | hq
        · exact .inl (.inr hd)
        · exact .inr ⟨q, hq, hd⟩

theorem mem_directives_targetsOver (c : LogConfig) (order : List Phase) (d : String × Level) :
    d ∈ (c.targetsOver order).directives ↔ ∃ p ∈ order, d = (p.target, c.levelFor p) := by
  have hnone : ∀ d ∈ (Targets.withDefault c.global).directives, ∃ p, d = (p.target, c.levelFor p) :=
    fun d hd => absurd hd List.not_mem_nil
  rw [targetsOver, mem_directives_foldl c d order _ hnone]
  exact or_iff_right List.not_mem_nil

theorem default_targetsOver (c : LogConfig) (order : List Phase) : (c.targetsOver order).default = c.global := by
  suffices h : ∀ (order : List Phase) (t : Targets),
      (order.foldl (fun t p => t.withTarget p.target (c.levelFor p)) t).default = t.default from
    h order (.withDefault c.global)
  intro order
  induction order with
  | nil => exact fun _ => rfl
  | cons p order ih => exact fun t => ih (t.withTarget p.target (c.levelFor p))

/-- **The level that governs a target**, in whatever order the phases were listed: the level for the phase with whose
name it begins, or the global one. -/
theorem governs_targetsOver (c : LogConfig) {order : List Phase} (horder : ∀ p, p ∈ order) (target : String)
    (g : Level) :
    (c.targetsOver order).Governs target g ↔
      (∃ p : Phase, p.Begins target ∧ g = c.levelFor p) ∨ (∀ p : Phase, ¬ p.Begins target) ∧ g = c.global := by
  have hmem := c.mem_directives_targetsOver order
  constructor
  · intro h
    cases h with
    | @directive name l mem begins longest =>
      obtain ⟨p, -, hp⟩ := (hmem _).1 mem
      obtain ⟨rfl, rfl⟩ := Prod.mk.inj hp
      exact .inl ⟨p, begins, rfl⟩
    | default none =>
      refine .inr ⟨fun p hp => ?_, c.default_targetsOver order⟩
      exact none _ ((hmem (p.target, c.levelFor p)).2 ⟨p, horder p, rfl⟩) hp
  · rintro (⟨p, hp, rfl⟩ | ⟨hnone, rfl⟩)
    · refine .directive ((hmem _).2 ⟨p, horder p, rfl⟩) hp fun d hd hbegins => ?_
      obtain ⟨q, -, rfl⟩ := (hmem d).1 hd
      have hq : q.Begins target := hbegins
      exact Nat.le_of_eq (congrArg (fun p : Phase => p.target.length) (hq.unique hp))
    · rw [← c.default_targetsOver order]
      refine .default fun d hd hbegins => ?_
      obtain ⟨q, -, rfl⟩ := (hmem d).1 hd
      exact hnone q hbegins

/-- **A target is decided by the level for the phase with whose name it begins**, or by the global one. -/
theorem enables_targetsOver (c : LogConfig) {order : List Phase} (horder : ∀ p, p ∈ order) (target : String)
    (l : Level) :
    (c.targetsOver order).enables target l = true ↔
      (∃ p : Phase, p.Begins target ∧ l.verbosity ≤ (c.levelFor p).verbosity) ∨
      (∀ p : Phase, ¬ p.Begins target) ∧ l.verbosity ≤ c.global.verbosity := by
  rw [Targets.enables, decide_eq_true_iff]
  rcases (c.governs_targetsOver horder target _).1 (Targets.governs_governing _ target) with ⟨p, hp, hg⟩ | ⟨hnone, hg⟩
  · rw [hg]
    constructor
    · exact fun h => .inl ⟨p, hp, h⟩
    · rintro (⟨q, hq, h⟩ | ⟨hnone, -⟩)
      · rw [hp.unique hq]
        exact h
      · exact absurd hp (hnone p)
  · rw [hg]
    constructor
    · exact fun h => .inr ⟨hnone, h⟩
    · rintro (⟨q, hq, -⟩ | ⟨-, h⟩)
      · exact absurd hq (hnone q)
      · exact h

theorem enables_targets (c : LogConfig) (target : String) (l : Level) :
    c.targets.enables target l = true ↔
      (∃ p : Phase, p.Begins target ∧ l.verbosity ≤ (c.levelFor p).verbosity) ∨
      (∀ p : Phase, ¬ p.Begins target) ∧ l.verbosity ≤ c.global.verbosity :=
  c.enables_targetsOver Phase.mem_all target l

/-- **A target outside the phases whose levels differ is decided alike.** -/
theorem enables_congr {c c' : LogConfig} {target : String} (hglobal : c'.global = c.global)
    (hphases : ∀ p : Phase, p.Begins target → c'.levelFor p = c.levelFor p) (l : Level) :
    c'.targets.enables target l = c.targets.enables target l := by
  refine Bool.eq_iff_iff.2 ?_
  rw [enables_targets, enables_targets, hglobal]
  refine or_congr_left (exists_congr fun p => and_congr_right fun hp => ?_)
  rw [hphases p hp]

/-- **Where no level is less verbose, nothing that was shown is hidden.** -/
theorem enables_mono {c c' : LogConfig} (hglobal : c.global.verbosity ≤ c'.global.verbosity)
    (hphases : ∀ p, (c.levelFor p).verbosity ≤ (c'.levelFor p).verbosity) {target : String} {l : Level}
    (h : c.targets.enables target l = true) : c'.targets.enables target l = true := by
  rw [enables_targets] at h ⊢
  rcases h with ⟨p, hp, h⟩ | ⟨hnone, h⟩
  · exact .inl ⟨p, hp, Nat.le_trans h (hphases p)⟩
  · exact .inr ⟨hnone, Nat.le_trans h hglobal⟩

/-- **An event is shown when it is no more verbose than the level for its phase.** -/
theorem shows_iff (c : LogConfig) (e : Event) :
    c.shows e = true ↔ e.level.verbosity ≤ (c.levelFor e.phase).verbosity := by
  have hbegins : e.phase.Begins e.target := e.phase.begins_target
  rw [shows, enables_targets]
  constructor
  · rintro (⟨p, hp, h⟩ | ⟨hnone, -⟩)
    · rw [hbegins.unique hp]
      exact h
    · exact absurd hbegins (hnone _)
  · exact fun h => .inl ⟨_, hbegins, h⟩

/-- **Each phase decides about its own targets.**  The level that governs a target is the level for the phase with whose
name it begins, or the global one when it begins with none; no target begins with the names of two.  A target is enabled
at a level just when that is no more verbose than the one that governs it, in whatever order the phases were listed.
Hence an override decides about no target but those of its phase; a more verbose global level, and a more verbose level
for a phase, hide nothing that was shown; and without overrides the global level decides about every target. -/
theorem filters_by_phase (c : LogConfig) :
    (∀ target g, c.targets.Governs target g ↔
      (∃ p : Phase, p.Begins target ∧ g = c.levelFor p) ∨ (∀ p : Phase, ¬ p.Begins target) ∧ g = c.global) ∧
    (∀ (p q : Phase) (target : String), p.Begins target → q.Begins target → p = q) ∧
    (∀ target, ∃ g, c.targets.Governs target g ∧
      ∀ l, (c.targets.enables target l = true ↔ l.verbosity ≤ g.verbosity)) ∧
    (∀ order : List Phase, (∀ p, p ∈ order) → ∀ target l,
      (c.targetsOver order).enables target l = c.targets.enables target l) ∧
    (∀ (p : Phase) (o : Option Level) (target : String), ¬ p.Begins target → ∀ l,
      (c.withOverride p o).targets.enables target l = c.targets.enables target l) ∧
    (∀ g : Level, c.global.verbosity ≤ g.verbosity → ∀ target l, c.targets.enables target l = true →
      { c with global := g }.targets.enables target l = true) ∧
    (∀ (p : Phase) (o : Level), (c.levelFor p).verbosity ≤ o.verbosity → ∀ target l,
      c.targets.enables target l = true → (c.withOverride p (some o)).targets.enables target l = true) ∧
    ((∀ p, c.override? p = none) → ∀ target l,
      (c.targets.enables target l = true ↔ l.verbosity ≤ c.global.verbosity)) := by
  refine ⟨c.governs_targetsOver Phase.mem_all, fun p q target => Phase.Begins.unique, fun target => ?_,
    fun order horder target l => ?_, fun p o target hp l => ?_, fun g hg target l => ?_, fun p o ho target l => ?_,
    fun hnone target l => ?_⟩
  · exact ⟨_, Targets.governs_governing c.targets target, fun l => decide_eq_true_iff⟩
  · exact Bool.eq_iff_iff.2 ((c.enables_targetsOver horder target l).trans (c.enables_targets target l).symm)
  · refine enables_congr (c.global_withOverride p o) (fun q hq => ?_) l
    rw [levelFor_withOverride, if_neg]
    rintro rfl
    exact hp hq
  · refine enables_mono hg fun p => ?_
    show (c.levelFor p).verbosity ≤ ((c.override? p).getD g).verbosity
    rw [levelFor]
    cases c.override? p with
    | none => exact hg
    | some o => exact Nat.le_refl _
  · refine enables_mono (Nat.le_of_eq (congrArg _ (c.global_withOverride p _).symm)) fun q => ?_
    rw [levelFor_withOverride]
    split
    · rename_i hq
      rw [hq]
      exact ho
    · exact Nat.le_refl _
  · have hlevel : ∀ p, c.levelFor p = c.global := fun p => by rw [levelFor, hnone p]; rfl
    rw [enables_targets]
    constructor
    · rintro (⟨p, -, h⟩ | ⟨-, h⟩)
      · rw [← hlevel p]
        exact h
      · exact h
    · intro h
      by_cases hbegins : ∃ p : Phase, p.Begins target
      · obtain ⟨p, hp⟩ := hbegins
        exact .inl ⟨p, hp, by rw [hlevel p]; exact h⟩
      · exact .inr ⟨fun p hp => hbegins ⟨p, hp⟩, h⟩

/-- A target that goes on after the name of a phase is the phase's too; one that stops short of it is not. -/
example : ({ vm := some .error } : LogConfig).targets.enables "tandem::vmx" .warn = false ∧
    ({ vm := some .error } : LogConfig).targets.enables "tandem::v" .warn = true := by
  decide +kernel

end LogConfig
end MixedMode
