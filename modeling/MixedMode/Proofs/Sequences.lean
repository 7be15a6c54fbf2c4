import MixedMode.Proofs.Accounting
import MixedMode.Proofs.Unobserved
/-!
# Sequences — operations that are refused, and operations that are left out

An operation makes its checks before it does anything.  One that fails a check answers the first that fails and does
nothing else (`Machine.Refused.perform`).  A run that passes them changes the counters, and those no body sees.  So
where bodies keep nothing, runs may be left out of a sequence of operations, or put into it, and the other operations
answer the same (`Machine.performAll_filter`).
-/
namespace MixedMode

variable {β σ : Type}

namespace Machine

/-! ## Operations that are refused -/

namespace Operation

/-- The operation is to run a function. -/
def runs : Operation β σ → Bool
  | .run _ | .runWith .. | .runEntry => true
  | .prepare | .load _ | .reset      => false

/-- The operation is one that can be left out of a sequence. -/
def transient : Operation β σ → Bool
  | .reset => true
  | op     => op.runs

def failure? {α : Type} : Except MachineError α → Option MachineError
  | .error e => some e
  | .ok _    => none

/-- The error that an answer is, if it is one. -/
def error? : (op : Operation β σ) → op.Answer → Option MachineError
  | .prepare, r | .load _, r                  => failure? (show Except MachineError Unit from r)
  | .run _, r | .runWith .., r | .runEntry, r => failure? (show Except MachineError Word from r)
  | .reset, _                                 => none

end Operation

/-- The first check that an operation fails, with the error it answers: for each operation its checks in the order in
which they are made. -/
inductive Refused (m : Machine β σ) : Operation β σ → MachineError → Prop
  | prepared (hready : m.ready = true) : Refused m .prepare .alreadyInitialized
  | invalid {e : ConfigError} (hready : m.ready = false) (hinvalid : m.config.validate = .error e) :
      Refused m .prepare (.config e)
  | loadUnprepared {module : Module β σ} (hready : m.ready = false) : Refused m (.load module) .notInitialized
  | loadEmpty {module : Module β σ} (hready : m.ready = true) (hsize : module.size = 0) :
      Refused m (.load module) (.emptyModule module.name)
  | runUnprepared {op : Operation β σ} (hop : op.runs = true) (hready : m.ready = false) :
      Refused m op .notInitialized
  | runUnloaded {op : Operation β σ} (hop : op.runs = true) (hready : m.ready = true) (hmodule : m.module = none) :
      Refused m op .noModuleLoaded
  | runOutOfRange {op : Operation β σ} {index : Nat} {args : Array Word} {module : Module β σ}
      (hrun : op.run? m = some (index, args)) (hready : m.ready = true) (hmodule : m.module = some module)
      (hindex : module.size ≤ index) : Refused m op (.indexOutOfRange module.name index module.size)
  | runArity {op : Operation β σ} {index : Nat} {args : Array Word} {module : Module β σ} {f : Function β σ}
      (hrun : op.run? m = some (index, args)) (hready : m.ready = true) (hmodule : m.module = some module)
      (hindex : module.function? index = some f) (hcount : args.size ≠ f.arity) :
      Refused m op (.arityMismatch f.name f.arity args.size)

variable {m : Machine β σ} {op : Operation β σ} {w : World σ} {index : Nat} {args : Array Word}
  {config : MachineConfig} {interpreter : Interpreter β σ}

/-- The error of an operation that begins a run is the run's. -/
theorem error?_of_run? (h : op.run? m = some (index, args)) (w : World σ) :
    op.error? (m.perform op w).1 = Operation.failure? (m.runWith index args w).1 := by
  cases op with
  | run i =>
    cases h
    rfl
  | runWith i ws =>
    cases h
    rfl
  | runEntry =>
    obtain ⟨rfl, he⟩ := runEntry_of_run? h w
    exact congrArg (fun x => Operation.failure? x.1) he
  | _ => cases h

theorem runnable_of_size_le {module : Module β σ} (hready : m.ready = true) (hmodule : m.module = some module)
    (hindex : module.size ≤ index) (count : Nat) :
    m.runnable index count = .error (.indexOutOfRange module.name index module.size) := by
  have hnone : module.function? index = none := Array.getElem?_eq_none_iff.2 hindex
  simp [runnable, hready, hmodule, hnone]

theorem runnable_of_count_ne {module : Module β σ} {f : Function β σ} {count : Nat} (hready : m.ready = true)
    (hmodule : m.module = some module) (hindex : module.function? index = some f) (hcount : count ≠ f.arity) :
    m.runnable index count = .error (.arityMismatch f.name f.arity count) := by
  simp [runnable, hready, hmodule, hindex, hcount]

theorem perform_of_unrunnable {e : MachineError} (hrun : op.run? m = some (index, args))
    (he : m.runnable index args.size = .error e) (w : World σ) :
    op.error? (m.perform op w).1 = some e ∧ (m.perform op w).2 = (m, w) ∧ m.Enters op w [] := by
  have hrefused := runWith_of_runnable_error (w := w) he
  refine ⟨?_, ?_, .none fun i ws hi => ?_⟩
  · rw [error?_of_run? hrun, hrefused]
    rfl
  · rw [perform_of_run? hrun, hrefused]
  · obtain ⟨rfl, rfl⟩ := Prod.mk.inj (Option.some.inj (hrun.symm.trans hi))
    exact moment_eq_none.2 ⟨e, he⟩

theorem perform_of_forall_unrunnable {e : MachineError} (hop : op.runs = true)
    (he : ∀ index count, m.runnable index count = .error e) (hentry : m.runEntry w = (.error e, m, w)) :
    op.error? (m.perform op w).1 = some e ∧ (m.perform op w).2 = (m, w) ∧ m.Enters op w [] := by
  cases hrun : op.run? m with
  | some run => exact perform_of_unrunnable hrun (he _ _) w
  | none =>
    cases op with
    | runEntry =>
      rw [Machine.perform, hentry]
      exact ⟨rfl, rfl, .none fun _ _ h => by rw [hrun] at h; cases h⟩
    | run | runWith => cases hrun
    | prepare | load | reset => cases hop

/-- **An operation that fails a check does nothing**: it answers the first check that fails, leaves the machine and the
world as they were and enters no body. -/
theorem Refused.perform {e : MachineError} (h : m.Refused op e) (w : World σ) :
    op.error? (m.perform op w).1 = some e ∧ (m.perform op w).2 = (m, w) ∧ m.Enters op w [] := by
  cases h with
  | prepared hready =>
    rcases m.prepare_cases w with ⟨-, he⟩ | ⟨_, hready', -⟩ | ⟨hready', -⟩
    · rw [Machine.perform, he]
      exact ⟨rfl, rfl, .none fun _ _ h => by cases h⟩
    all_goals
      rw [hready] at hready'
      cases hready'
  | @invalid e hready hinvalid =>
    rcases m.prepare_cases w with ⟨hready', -⟩ | ⟨e', -, hinvalid', he⟩ | ⟨-, hvalid, -⟩
    · rw [hready] at hready'
      cases hready'
    · obtain rfl := Except.error.inj (hinvalid.symm.trans hinvalid')
      rw [Machine.perform, he]
      exact ⟨rfl, rfl, .none fun _ _ h => by cases h⟩
    · rw [hinvalid] at hvalid
      cases hvalid
  | @loadUnprepared module hready =>
    rcases m.load_cases w module with ⟨-, he⟩ | ⟨hready', -⟩ | ⟨hready', -⟩
    · rw [Machine.perform, he]
      exact ⟨rfl, rfl, .none fun _ _ h => by cases h⟩
    all_goals
      rw [hready] at hready'
      cases hready'
  | @loadEmpty module hready hsize =>
    rcases m.load_cases w module with ⟨hready', -⟩ | ⟨-, -, he⟩ | ⟨-, hsize', -⟩
    · rw [hready] at hready'
      cases hready'
    · rw [Machine.perform, he]
      exact ⟨rfl, rfl, .none fun _ _ h => by cases h⟩
    · omega
  | runUnprepared hop hready =>
    refine perform_of_forall_unrunnable hop (fun _ _ => ?_) ?_
    · simp [runnable, hready]
    · simp [runEntry, hready]
  | runUnloaded hop hready hmodule =>
    refine perform_of_forall_unrunnable hop (fun _ _ => ?_) ?_
    · simp [runnable, hready, hmodule]
    · simp [runEntry, hready, hmodule]
  | runOutOfRange hrun hready hmodule hindex =>
    exact perform_of_unrunnable hrun (runnable_of_size_le hready hmodule hindex _) w
  | runArity hrun hready hmodule hindex hcount =>
    exact perform_of_unrunnable hrun (runnable_of_count_ne hready hmodule hindex hcount) w

/-- Once a machine is ready and has a module, each operation that is to run a function names one. -/
theorem Orderly.exists_run (h : m.Orderly config interpreter) (hop : op.runs = true) {module : Module β σ}
    (hmodule : m.module = some module) : ∃ index args, op.run? m = some (index, args) := by
  cases op with
  | runEntry =>
    have hentry := entryIndex?_eq_some.2 ⟨(h.loaded module hmodule).2, rfl⟩
    exact ⟨module.size - 1, #[], by rw [Operation.run?, hmodule, Option.bind_some, hentry]; rfl⟩
  | run index => exact ⟨index, #[], rfl⟩
  | runWith index args => exact ⟨index, args, rfl⟩
  | prepare | load | reset => cases hop

/-- **An operation that passes its checks succeeds**, or it is a run and the body fails. -/
theorem Orderly.refused_or (h : m.Orderly config interpreter) (op : Operation β σ) (w : World σ) :
    (∃ e, m.Refused op e) ∨ op.error? (m.perform op w).1 = none ∨
      ∃ index args module f e, op.run? m = some (index, args) ∧ m.runnable index args.size = .ok (module, f) ∧
        op.error? (m.perform op w).1 = some (.runtime f.name e) := by
  cases hop : op.runs with
  | false =>
    cases op with
    | prepare =>
      rcases m.prepare_cases w with ⟨hready, -⟩ | ⟨_, hready, hinvalid, -⟩ | ⟨-, -, he⟩
      · exact .inl ⟨_, .prepared hready⟩
      · exact .inl ⟨_, .invalid hready hinvalid⟩
      · exact .inr (.inl (by rw [Machine.perform, he]; rfl))
    | load module =>
      rcases m.load_cases w module with ⟨hready, -⟩ | ⟨hready, hsize, -⟩ | ⟨-, -, he⟩
      · exact .inl ⟨_, .loadUnprepared hready⟩
      · exact .inl ⟨_, .loadEmpty hready hsize⟩
      · exact .inr (.inl (by rw [Machine.perform, he]; rfl))
    | reset => exact .inr (.inl rfl)
    | run | runWith | runEntry => cases hop
  | true =>
    cases hready : m.ready with
    | false => exact .inl ⟨_, .runUnprepared hop hready⟩
    | true =>
      cases hmodule : m.module with
      | none => exact .inl ⟨_, .runUnloaded hop hready hmodule⟩
      | some module =>
        obtain ⟨index, args, hrun⟩ := h.exists_run hop hmodule
        rcases m.runnable_cases index args.size with
          ⟨hready', -⟩ | ⟨-, hm, -⟩ | ⟨_, -, hm, hindex, -⟩ | ⟨_, f, -, hm, hindex, hcount, -⟩ | ⟨_, f, -, -, -, -, hr⟩
        · rw [hready] at hready'
          cases hready'
        · rw [hmodule] at hm
          cases hm
        · exact .inl ⟨_, .runOutOfRange hrun hready hm hindex⟩
        · exact .inl ⟨_, .runArity hrun hready hm hindex hcount⟩
        · refine .inr ?_
          rw [error?_of_run? hrun, runWith_of_runnable hr, outcome_fst]
          cases (iterate (m.context _) f args m.config.loopCount.toNat 0 0 (m.startState f index w)).1 with
          | error e => exact .inr ⟨index, args, _, f, e, hrun, hr, rfl⟩
          | ok word => exact .inl rfl

/-! ## Machines that differ in the counters -/

theorem iterate_blind (cx : Context β σ) (f : Function β σ) (args : Array Word) {extra : CallStats} :
    ∀ (more next : Nat) (last : Word) {s s' : CallState σ}, s.Ahead extra s' →
      Alongside extra (iterate cx f args more next last s) (iterate cx f args more next last s')
  | 0, _, _, _, _, hs           => ⟨rfl, hs⟩
  | more + 1, next, _, s, s', hs => by
    obtain ⟨r, t, t', heq, heq', ht⟩ := (cx.invoke_blind f args hs).exists_eq
    rw [iterate, iterate, heq, heq']
    cases r with
    | error e => exact ⟨rfl, ht⟩
    | ok word => exact iterate_blind cx f args more (next + 1) word ⟨ht.stack, ht.kept, ht.nesting, ht.stats⟩

theorem kept_iterate {cx : Context β σ} {f : Function β σ} (h : cx.module.KeepsNothing cx.interpreter)
    (hf : f ∈ cx.module.functions) (args : Array Word) : ∀ (more next : Nat) (last : Word) (s : CallState σ),
    (iterate cx f args more next last s).2.kept = s.kept
  | 0, _, _, _           => rfl
  | more + 1, next, _, s => by
    have hkept := Context.kept_invoke h hf args s
    rw [iterate]
    cases hinvoke : cx.invoke f args s with
    | mk r t =>
      rw [hinvoke] at hkept
      cases r with
      | error e => exact hkept
      | ok word => exact (kept_iterate h hf args more (next + 1) word _).trans hkept

/-- Two machines that are the same but for the counters, the second with `more` on top of what the first has counted, in
worlds in which bodies find the same kept. -/
structure Ahead (more : CallStats) (x x' : Machine β σ × World σ) : Prop where
  machine : x'.1 = { x.1 with stats := x.1.stats + more }
  kept : x'.2.kept = x.2.kept

variable {more : CallStats} {m' : Machine β σ} {w' : World σ}

theorem Ahead.machine_eq (h : Ahead more (m, w) (m', w')) : m' = { m with stats := m.stats + more } := h.machine

theorem Ahead.runWith (h : Ahead more (m, w) (m', w')) (index : Nat) (args : Array Word) :
    (m'.runWith index args w').1 = (m.runWith index args w).1 ∧
      Ahead more (m.runWith index args w).2 (m'.runWith index args w').2 := by
  obtain rfl := h.machine_eq
  have hkept : w'.kept = w.kept := h.kept
  cases hr : m.runnable index args.size with
  | error e =>
    have hr' : ({ m with stats := m.stats + more } : Machine β σ).runnable index args.size = .error e := hr
    rw [runWith_of_runnable_error hr, runWith_of_runnable_error hr']
    exact ⟨rfl, h⟩
  | ok mf =>
    obtain ⟨module, f⟩ := mf
    have hr' : ({ m with stats := m.stats + more } : Machine β σ).runnable index args.size = .ok (module, f) := hr
    have hstart : (m.startState f index w).Ahead more
        (({ m with stats := m.stats + more } : Machine β σ).startState f index w') := ⟨rfl, hkept, rfl, rfl⟩
    have hended := iterate_blind (m.context module) f args m.config.loopCount.toNat 0 0 hstart
    rw [runWith_of_runnable hr, runWith_of_runnable hr']
    refine ⟨?_, ?_, ?_⟩
    · rw [outcome_fst, outcome_fst]
      exact congrArg (Except.mapError _) hended.answer
    · rw [outcome_machine, outcome_machine]
      simp only [Machine.mk.injEq, and_true, true_and]
      exact ⟨hended.state.stack, hended.state.stats⟩
    · rw [outcome_kept, outcome_kept]
      exact hended.state.kept

/-- **No operation tells the counters**: it answers the same whatever they are, and adds the same to them. -/
theorem Ahead.perform (h : Ahead more (m, w) (m', w')) (op : Operation β σ) :
    (m'.perform op w').1 = (m.perform op w).1 ∧ Ahead more (m.perform op w).2 (m'.perform op w').2 := by
  cases op with
  | run index => exact h.runWith index #[]
  | runWith index args => exact h.runWith index args
  | prepare =>
    obtain rfl := h.machine_eq
    have hkept : w'.kept = w.kept := h.kept
    simp only [Machine.perform, prepare]
    split
    · exact ⟨rfl, h⟩
    · cases m.config.validate with
      | error e => exact ⟨rfl, h⟩
      | ok u => exact ⟨rfl, rfl, hkept⟩
  | load module =>
    obtain rfl := h.machine_eq
    have hkept : w'.kept = w.kept := h.kept
    simp only [Machine.perform, load]
    split
    · exact ⟨rfl, h⟩
    · split
      · exact ⟨rfl, h⟩
      · exact ⟨rfl, rfl, hkept⟩
  | runEntry =>
    have hready : m'.ready = m.ready := by rw [h.machine_eq]
    have hmodule : m'.module = m.module := by rw [h.machine_eq]
    simp only [Machine.perform, runEntry]
    rw [hready, hmodule]
    split
    · exact ⟨rfl, h⟩
    · cases m.module with
      | none => exact ⟨rfl, h⟩
      | some module =>
        dsimp only
        cases module.entryIndex? with
        | none => exact ⟨rfl, h⟩
        | some index => exact h.runWith index #[]
  | reset =>
    obtain rfl := h.machine_eq
    have hkept : w'.kept = w.kept := h.kept
    exact ⟨rfl, rfl, hkept⟩

/-- What an operation adds to the counters: what it leaves there when they are at zero before it. -/
def contribution (m : Machine β σ) (op : Operation β σ) (w : World σ) : CallStats :=
  ({ m with stats := 0 }.perform op w).2.1.stats

theorem stats_perform (m : Machine β σ) (op : Operation β σ) (w : World σ) :
    (m.perform op w).2.1.stats = m.stats + m.contribution op w := by
  have hahead : Ahead m.stats ({ m with stats := 0 }, w) (m, w) := by
    refine ⟨?_, rfl⟩
    show m = { m with stats := 0 + m.stats }
    rw [zero_add]
  rw [(hahead.perform op).2.machine, add_comm]
  rfl

/-- **An operation that can be left out changes nothing but the counters.** -/
theorem Orderly.perform_transient (h : m.Orderly config interpreter) (hop : op.transient = true) (w : World σ) :
    (m.perform op w).2.1 = { m with stats := m.stats + m.contribution op w } := by
  have hstats := m.stats_perform op w
  suffices hsame : (m.perform op w).2.1 = { m with stats := (m.perform op w).2.1.stats } by rw [hsame, hstats]
  cases op with
  | run index => exact m.runWith_machine index #[] w
  | runWith index args => exact m.runWith_machine index args w
  | runEntry => exact m.runEntry_machine w
  | reset => rw [Machine.perform, h.reset_eq]
  | prepare | load => cases hop

/-! ## Bodies that keep nothing -/

/-- No body of the module that is loaded, if one is, keeps anything. -/
def KeepsNothing (m : Machine β σ) : Prop := ∀ module, m.module = some module → module.KeepsNothing m.interpreter

theorem KeepsNothing.runWith (h : m.KeepsNothing) (index : Nat) (args : Array Word) (w : World σ) :
    (m.runWith index args w).2.2.kept = w.kept := by
  cases hr : m.runnable index args.size with
  | error e => rw [runWith_of_runnable_error hr]
  | ok mf =>
    obtain ⟨module, f⟩ := mf
    obtain ⟨hmodule, hindex, -⟩ := runnable_spec hr
    rw [runWith_of_runnable hr, outcome_kept]
    exact kept_iterate (h module hmodule) (Module.mem_of_function? hindex) args _ 0 0 _

theorem KeepsNothing.perform (h : m.KeepsNothing) (op : Operation β σ) (w : World σ) :
    (m.perform op w).2.2.kept = w.kept := by
  cases op with
  | prepare =>
    rcases m.prepare_cases w with ⟨-, he⟩ | ⟨_, -, -, he⟩ | ⟨-, -, he⟩ <;> rw [Machine.perform, he]
    rfl
  | load module =>
    rcases m.load_cases w module with ⟨-, he⟩ | ⟨-, -, he⟩ | ⟨-, -, he⟩ <;> rw [Machine.perform, he]
    rfl
  | run index => exact h.runWith index #[] w
  | runWith index args => exact h.runWith index args w
  | runEntry =>
    rcases m.runEntry_cases w with ⟨-, he⟩ | ⟨-, -, he⟩ | ⟨_, -, -, -, he⟩ | ⟨module, -, -, -, he⟩ <;>
      rw [Machine.perform, he]
    exact h.runWith _ #[] w
  | reset => rfl

/-- Only `load` changes what is loaded. -/
theorem KeepsNothing.next (h : m.KeepsNothing) (hload : ∀ module, op = .load module → module.KeepsNothing m.interpreter)
    (w : World σ) : (m.perform op w).2.1.KeepsNothing := by
  cases op with
  | prepare => rcases m.prepare_cases w with ⟨-, he⟩ | ⟨_, -, -, he⟩ | ⟨-, -, he⟩ <;> rw [Machine.perform, he] <;> exact h
  | load module =>
    rcases m.load_cases w module with ⟨-, he⟩ | ⟨-, -, he⟩ | ⟨-, -, he⟩ <;> rw [Machine.perform, he]
    · exact h
    · exact h
    · intro module' hm
      exact Option.some.inj hm ▸ hload module rfl
  | run index => rw [Machine.perform, run, runWith_machine]; exact h
  | runWith index args => rw [Machine.perform, runWith_machine]; exact h
  | runEntry => rw [Machine.perform, runEntry_machine]; exact h
  | reset => exact h

/-! ## Leaving operations out -/

/-- Perform operations one after the other.  Each has a mark, which its answer keeps: whether it stays when operations
are left out. -/
def performAll : Machine β σ → List (Bool × Operation β σ) → World σ →
    List (Bool × Performed β σ) × Machine β σ × World σ
  | m, [], w                 => ([], m, w)
  | m, (stays, op) :: ops, w =>
    match m.perform op w with
    | (answer, m, w) =>
      match performAll m ops w with
      | (answers, rest) => ((stays, ⟨op, answer⟩) :: answers, rest)

/-- What the operations that do not stay add to the counters, each when its turn comes. -/
def contributions : Machine β σ → List (Bool × Operation β σ) → World σ → CallStats
  | _, [], _                 => 0
  | m, (stays, op) :: ops, w =>
    (if stays then 0 else m.contribution op w) + contributions (m.perform op w).2.1 ops (m.perform op w).2.2

theorem performAll_cons (m : Machine β σ) (stays : Bool) (op : Operation β σ) (ops : List (Bool × Operation β σ))
    (w : World σ) :
    m.performAll ((stays, op) :: ops) w =
      ((stays, ⟨op, (m.perform op w).1⟩) :: ((m.perform op w).2.1.performAll ops (m.perform op w).2.2).1,
        ((m.perform op w).2.1.performAll ops (m.perform op w).2.2).2) := rfl

variable {past : List (Performed β σ)}

/-- **Operations that are left out are missed by none that stay**, and the counters miss what they added. -/
theorem performAll_filter : ∀ (ops : List (Bool × Operation β σ)) {more : CallStats} {m m' : Machine β σ}
    {w w' : World σ}, m'.Orderly config interpreter → m'.KeepsNothing → Ahead more (m, w) (m', w') →
    (∀ stays module, (stays, .load module) ∈ ops → module.KeepsNothing interpreter) →
    (∀ op, (false, op) ∈ ops → op.transient = true) →
    (m.performAll (ops.filter (·.1)) w).1 = (m'.performAll ops w').1.filter (·.1) ∧
      Ahead (more + m'.contributions ops w') (m.performAll (ops.filter (·.1)) w).2 (m'.performAll ops w').2
  | [], more, m, m', w, w', _, _, hahead, _, _ => by
    refine ⟨rfl, ?_⟩
    rw [contributions, add_zero]
    exact hahead
  | (stays, op) :: ops, more, m, m', w, w', horderly, hkeeps, hahead, hloads, hleaves => by
    have hloads' := fun stays module hmem => hloads stays module (List.mem_cons_of_mem _ hmem)
    have hleaves' := fun op hmem => hleaves op (List.mem_cons_of_mem _ hmem)
    have hload : ∀ module, op = .load module → module.KeepsNothing m'.interpreter := by
      rintro module rfl
      rw [horderly.collaborator]
      exact hloads stays module (List.mem_cons_self ..)
    have hkeeps' := hkeeps.next hload w'
    rw [performAll_cons, contributions, ← add_assoc]
    cases stays with
    | true =>
      obtain ⟨hanswer, hnext⟩ := hahead.perform op
      obtain ⟨hanswers, hrest⟩ := performAll_filter ops (horderly.perform op w') hkeeps' hnext hloads' hleaves'
      rw [List.filter_cons_of_pos rfl, List.filter_cons_of_pos rfl, performAll_cons, hanswer, hanswers, if_pos rfl,
        add_zero]
      exact ⟨rfl, hrest⟩
    | false =>
      -- here only the machine that leaves nothing out goes on, ahead by so much more and otherwise as it was
      have hmachine := horderly.perform_transient (hleaves op (List.mem_cons_self ..)) w'
      have hnext : Ahead (more + m'.contribution op w') (m, w) (m'.perform op w').2 := by
        refine ⟨hmachine.trans ?_, (hkeeps.perform op w').trans hahead.kept⟩
        rw [← add_assoc]
        exact congrArg (fun x => { x with stats := x.stats + m'.contribution op w' }) hahead.machine
      rw [List.filter_cons_of_neg Bool.false_ne_true, List.filter_cons_of_neg Bool.false_ne_true,
        if_neg Bool.false_ne_true]
      exact performAll_filter ops (horderly.perform op w') hkeeps' hnext hloads' hleaves'

/-- **Operations are all or nothing, and runs leave no trace but in the counters.**  An operation that fails a check
answers the first that fails, leaves the machine and the world as they were and enters no body; one that fails none
succeeds, unless it is a run and a body fails.  A run, whatever comes of it, changes nothing but the counters, and so
does `reset`.  Hence such operations may be left out of any sequence of operations, or put into it, as long as bodies
keep nothing: the others answer the same, and the counters differ by what those add of their own. -/
theorem History.leaves_no_trace (h : History config interpreter past m) :
    (∀ op e w, m.Refused op e →
      op.error? (m.perform op w).1 = some e ∧ (m.perform op w).2 = (m, w) ∧ m.Enters op w []) ∧
    (∀ op w, (∃ e, m.Refused op e) ∨ op.error? (m.perform op w).1 = none ∨
      ∃ index args module f e, op.run? m = some (index, args) ∧ m.runnable index args.size = .ok (module, f) ∧
        op.error? (m.perform op w).1 = some (.runtime f.name e)) ∧
    (∀ op w, op.transient = true → (m.perform op w).2.1 = { m with stats := m.stats + m.contribution op w }) ∧
    ∀ ops w, m.KeepsNothing → (∀ stays module, (stays, .load module) ∈ ops → module.KeepsNothing interpreter) →
      (∀ op, (false, op) ∈ ops → op.transient = true) →
      (m.performAll (ops.filter (·.1)) w).1 = (m.performAll ops w).1.filter (·.1) ∧
      (m.performAll ops w).2.1 = { (m.performAll (ops.filter (·.1)) w).2.1 with
        stats := (m.performAll (ops.filter (·.1)) w).2.1.stats + m.contributions ops w } := by
  have horderly := h.orderly
  refine ⟨fun op e w hrefused => hrefused.perform w, fun op w => horderly.refused_or op w,
    fun op w hop => horderly.perform_transient hop w, fun ops w hkeeps hloads hleaves => ?_⟩
  have hahead : Ahead 0 (m, w) (m, w) := ⟨by rw [add_zero], rfl⟩
  obtain ⟨hanswers, hrest⟩ := performAll_filter ops horderly hkeeps hahead hloads hleaves
  rw [zero_add] at hrest
  exact ⟨hanswers, hrest.machine⟩

/-- Two runs with another two between them, one of which is refused. -/
theorem History.leaves_no_trace_differences :
    ∃ (past : List (Performed (Body Unit) Unit)) (m : Machine (Body Unit) Unit)
      (ops : List (Bool × Operation (Body Unit) Unit)),
      History (.withConvention .operandStack) .ofPrograms past m ∧
      ops = [(true, .runWith 1 #[9]), (false, .runEntry), (false, .runWith 1 #[5]), (true, .runWith 0 #[7, 2])] ∧
      Operation.error? .runEntry (m.perform .runEntry ⟨#[], ()⟩).1 = some (.arityMismatch "differences" 1 0) ∧
      (m.performAll (ops.filter (·.1)) ⟨#[], ()⟩).1 = (m.performAll ops ⟨#[], ()⟩).1.filter (·.1) ∧
      m.contributions ops ⟨#[], ()⟩ = ⟨1, 2, 1⟩ ∧ (m.performAll ops ⟨#[], ()⟩).2.1.stats = ⟨2, 5, 2⟩ := by
  have h : History (.withConvention .operandStack) (.ofPrograms : Interpreter (Body Unit) Unit) _ _ :=
    (History.new.next .prepare ⟨#[], ()⟩).next (.load (.ofPrograms "programs" samplePrograms (· == 0))) ⟨#[], ()⟩
  obtain ⟨hrefused, -, -, hsequences⟩ := leaves_no_trace h
  refine ⟨_, _, _, h, rfl, (hrefused .runEntry _ _ ?_).1, (hsequences _ _ ?_ ?_ ?_).1, ?_, ?_⟩
  · exact @Refused.runArity _ _ _ _ 1 #[] (.ofPrograms "programs" samplePrograms (· == 0))
      ⟨⟨"differences", 1, 1⟩, some .differences, none⟩ rfl rfl rfl rfl (by decide)
  · intro module hmodule
    obtain rfl := Option.some.inj hmodule
    exact Module.keepsNothing_ofPrograms samplePrograms_avoid_keeps _
  · intro stays module hmem
    simp at hmem
  · intro op hmem
    simp only [List.mem_cons, Prod.mk.injEq, List.not_mem_nil, or_false] at hmem
    rcases hmem with ⟨h, -⟩ | ⟨-, rfl⟩ | ⟨-, rfl⟩ | ⟨h, -⟩
    · cases h
    · rfl
    · rfl
    · cases h
  · decide +kernel
  · decide +kernel

end Machine
end MixedMode
