import MixedMode.Proofs.Moment
/-!
# Counterpart — modules that differ in what is compiled

A module is uniform when every native entry runs the same program as the bytecode of its function; then it makes no
difference to a body whether it is compiled, unless it asks.  Two uniform modules that are the same without their native
entries run the same bodies (`Counterpart.bodyOf_eq`).
-/
namespace MixedMode

variable {β σ α : Type}

/-- The operations whose answer depends on what is compiled, or on how arguments are passed. -/
def Op.revealsEntry : Op σ → Bool
  | .convention | .argsInRegisters | .describe | .compiled _ | .selfCompiled => true
  | _ => false

/-- The operations whose answer also depends on what lies below the base of the frame. -/
def Op.revealsPlacement : Op σ → Bool
  | .depth => true
  | op     => op.revealsEntry

theorem Op.revealsPlacement_of_revealsEntry (op : Op σ) (h : op.revealsEntry = true) : op.revealsPlacement = true := by
  cases op with
  | depth => rfl
  | _ => exact h

/-- The program performs no operation that is `bad`, whatever the answers. -/
def Program.Avoids (bad : Op σ → Bool) : Program σ α → Prop
  | .done _    => True
  | .step op k => bad op = false ∧ ∀ answer, (k answer).Avoids bad

theorem Program.Avoids.mono {bad bad' : Op σ → Bool} (hbad : ∀ op, bad' op = true → bad op = true) :
    ∀ {p : Program σ α}, p.Avoids bad → p.Avoids bad'
  | .done _, _                => trivial
  | .step op k, ⟨hop, hnext⟩ => by
    refine ⟨?_, fun answer => (hnext answer).mono hbad⟩
    cases h : bad' op with
    | false => rfl
    | true => rw [hbad op h] at hop; cases hop

/-- The function without its native entry. -/
def Function.uncompiled (f : Function β σ) : Function β σ := { f with native := none }

def Module.uncompiled (M : Module β σ) : Module β σ := { M with functions := M.functions.map Function.uncompiled }

/-- Each native entry runs the same program as the bytecode. -/
def Module.Uniform (M : Module β σ) (interpreter : Interpreter β σ) : Prop :=
  ∀ f ∈ M.functions, ∀ body, f.native = some body → body = interpreter f.signature f.bytecode

/-- The body of each function avoids the operations that are `bad`. -/
def Module.Avoids (M : Module β σ) (interpreter : Interpreter β σ) (bad : Op σ → Bool) : Prop :=
  ∀ f ∈ M.functions, (interpreter f.signature f.bytecode).Avoids bad

/-- The body of each function, native or not, has the property `P`. -/
def Module.EachBody (M : Module β σ) (interpreter : Interpreter β σ) (P : Body σ → Prop) : Prop :=
  ∀ f ∈ M.functions, P (interpreter f.signature f.bytecode) ∧ ∀ body, f.native = some body → P body

theorem Module.EachBody.bodyOf {cx : Context β σ} {P : Body σ → Prop} (h : cx.module.EachBody cx.interpreter P)
    {f : Function β σ} (hf : f ∈ cx.module.functions) (c : Convention) : P (cx.bodyOf f (CallTarget.resolve c f)) := by
  unfold CallTarget.resolve
  cases hn : f.native with
  | none => exact (h f hf).1
  | some body =>
    dsimp only
    split
    · exact (h f hf).2 body hn
    · exact (h f hf).1

theorem Function.signature_eq {f g : Function β σ} (h : f.uncompiled = g.uncompiled) : f.signature = g.signature :=
  (Function.mk.inj h).1

theorem Function.bytecode_eq {f g : Function β σ} (h : f.uncompiled = g.uncompiled) : f.bytecode = g.bytecode :=
  (Function.mk.inj h).2.1

theorem Function.arity_eq {f g : Function β σ} (h : f.uncompiled = g.uncompiled) : f.arity = g.arity :=
  congrArg Signature.arity (Function.signature_eq h)

theorem Function.name_eq {f g : Function β σ} (h : f.uncompiled = g.uncompiled) : f.name = g.name :=
  congrArg Signature.name (Function.signature_eq h)

namespace Module

variable {M N : Module β σ}

theorem function?_uncompiled (M : Module β σ) (index : Nat) :
    M.uncompiled.function? index = (M.function? index).map Function.uncompiled := by
  rw [function?, function?, uncompiled, Array.getElem?_map]

theorem mem_of_function? {index : Nat} {f : Function β σ} (h : M.function? index = some f) : f ∈ M.functions :=
  Array.mem_of_getElem? h

/-- Modules that are the same without their native entries have the same functions but for these. -/
theorem function?_of_uncompiled_eq (h : M.uncompiled = N.uncompiled) (index : Nat) :
    (M.function? index = none ∧ N.function? index = none) ∨
    (∃ f g, M.function? index = some f ∧ N.function? index = some g ∧ f.uncompiled = g.uncompiled) := by
  have hmap := congrArg (fun L => L.function? index) h
  simp only [function?_uncompiled] at hmap
  cases hf : M.function? index with
  | none =>
    rw [hf] at hmap
    exact .inl ⟨rfl, Option.map_eq_none_iff.1 hmap.symm⟩
  | some f =>
    rw [hf] at hmap
    obtain ⟨g, hg, hgf⟩ := Option.map_eq_some_iff.1 hmap.symm
    exact .inr ⟨f, g, rfl, hg, hgf.symm⟩

theorem name_of_uncompiled_eq (h : M.uncompiled = N.uncompiled) : M.name = N.name := (Module.mk.inj h).1

theorem size_of_uncompiled_eq (h : M.uncompiled = N.uncompiled) : M.size = N.size := by
  have hsize := congrArg Array.size (Module.mk.inj h).2
  rwa [Array.size_map, Array.size_map] at hsize

end Module

namespace Context

/-- Two contexts that run the same bodies, none of which performs an operation that is `bad`: the first keeps arguments
on the stack, and what is `bad` covers all that could tell the two apart. -/
structure Counterpart (bad : Op σ → Bool) (cx cx' : Context β σ) : Prop where
  interpreter : cx.interpreter = cx'.interpreter
  maxDepth : cx.maxDepth = cx'.maxDepth
  module : cx.module.uncompiled = cx'.module.uncompiled
  uniform : cx.module.Uniform cx.interpreter
  uniform' : cx'.module.Uniform cx'.interpreter
  avoids : cx.module.Avoids cx.interpreter bad
  keeps : cx.convention.keepsStack = true
  entry : ∀ op : Op σ, op.revealsEntry = true → bad op = true
  depth : cx'.convention.keepsStack = true ∨ bad .depth = true

theorem bodyOf_of_uniform {cx : Context β σ} (h : cx.module.Uniform cx.interpreter) {f : Function β σ}
    (hf : f ∈ cx.module.functions) :
    cx.bodyOf f (CallTarget.resolve cx.convention f) = cx.interpreter f.signature f.bytecode := by
  unfold CallTarget.resolve
  cases hn : f.native with
  | none => rfl
  | some body =>
    dsimp only
    split
    · exact h f hf body hn
    · rfl

/-- **Counterparts run the same bodies.** -/
theorem Counterpart.bodyOf_eq {bad : Op σ → Bool} {cx cx' : Context β σ} (h : cx.Counterpart bad cx')
    {f f' : Function β σ} (hf : f ∈ cx.module.functions) (hf' : f' ∈ cx'.module.functions)
    (heq : f.uncompiled = f'.uncompiled) :
    cx.bodyOf f (CallTarget.resolve cx.convention f) = cx'.bodyOf f' (CallTarget.resolve cx'.convention f') ∧
      (cx.bodyOf f (CallTarget.resolve cx.convention f)).Avoids bad := by
  rw [bodyOf_of_uniform h.uniform hf, bodyOf_of_uniform h.uniform' hf', ← h.interpreter, Function.signature_eq heq,
    Function.bytecode_eq heq]
  refine ⟨rfl, ?_⟩
  rw [← Function.signature_eq heq, ← Function.bytecode_eq heq]
  exact h.avoids f hf

end Context

namespace Machine

/-- Two machines that differ at most in their convention and in what is compiled.  Whether a body is entered natively
makes no difference to it, as it is the same program, and none performs an operation that is `bad`. -/
structure Counterpart (bad : Op σ → Bool) (m m' : Machine β σ) : Prop where
  interpreter : m.interpreter = m'.interpreter
  maxRecursionDepth : m.config.limits.maxRecursionDepth = m'.config.limits.maxRecursionDepth
  loopCount : m.config.loopCount = m'.config.loopCount
  stack : m.stack = m'.stack
  ready : m.ready = m'.ready
  module : m.module.map Module.uncompiled = m'.module.map Module.uncompiled
  uniform : ∀ M, m.module = some M → M.Uniform m.interpreter
  uniform' : ∀ M, m'.module = some M → M.Uniform m'.interpreter
  avoids : ∀ M, m.module = some M → M.Avoids m.interpreter bad

variable {bad : Op σ → Bool} {m m' : Machine β σ}

namespace Counterpart

/-- Counterparts refuse a run for the same reason, or run the same function of the same module. -/
theorem runnable (h : m.Counterpart bad m') (index count : Nat) :
    (∃ e, m.runnable index count = .error e ∧ m'.runnable index count = .error e) ∨
    (∃ M f M' f', m.runnable index count = .ok (M, f) ∧ m'.runnable index count = .ok (M', f') ∧
      M.uncompiled = M'.uncompiled ∧ f.uncompiled = f'.uncompiled) := by
  unfold Machine.runnable
  rw [← h.ready]
  cases hready : m.ready with
  | false => exact .inl ⟨_, rfl, rfl⟩
  | true =>
    have hmodule := h.module
    cases hM : m.module with
    | none =>
      rw [hM] at hmodule
      have hM' : m'.module = none := Option.map_eq_none_iff.1 hmodule.symm
      rw [hM']
      exact .inl ⟨_, rfl, rfl⟩
    | some M =>
      rw [hM] at hmodule
      obtain ⟨M', hM', heq⟩ := Option.map_eq_some_iff.1 hmodule.symm
      rw [hM']
      dsimp only
      rcases Module.function?_of_uncompiled_eq heq.symm index with ⟨hf, hf'⟩ | ⟨f, f', hf, hf', hff⟩
      · rw [hf, hf', Module.name_of_uncompiled_eq heq.symm, Module.size_of_uncompiled_eq heq.symm]
        exact .inl ⟨_, rfl, rfl⟩
      · rw [hf, hf']
        dsimp only
        rw [Function.arity_eq hff, Function.name_eq hff]
        by_cases hcount : count = f'.arity
        · rw [if_pos hcount, if_pos hcount]
          exact .inr ⟨M, f, M', f', rfl, rfl, heq.symm, hff⟩
        · rw [if_neg hcount, if_neg hcount]
          exact .inl ⟨_, rfl, rfl⟩

theorem context (h : m.Counterpart bad m') (hkeeps : m.config.callStyle.keepsStack = true)
    (hentry : ∀ op : Op σ, op.revealsEntry = true → bad op = true)
    (hdepth : m'.config.callStyle.keepsStack = true ∨ bad .depth = true) {M M' : Module β σ} (hM : m.module = some M)
    (hM' : m'.module = some M') (heq : M.uncompiled = M'.uncompiled) :
    (m.context M).Counterpart bad (m'.context M') where
  interpreter := h.interpreter
  maxDepth := congrArg UInt64.toNat h.maxRecursionDepth
  module := heq
  uniform := h.uniform M hM
  uniform' := h.uniform' M' hM'
  avoids := h.avoids M hM
  keeps := hkeeps
  entry := hentry
  depth := hdepth

end Counterpart

end Machine

/-! ## Programs as bytecode -/

/-- The interpreter of bytecode that is a program already. -/
def Interpreter.ofPrograms : Interpreter (Body σ) σ := fun self bytecode =>
  bytecode.getD (.done (.error (.raised s!"'{self.name}' has no bytecode")))

/-- The module of these programs in which the functions with the indices that are `compiled` have a native entry. -/
def Module.ofPrograms (name : String) (programs : Array (Signature × Body σ)) (compiled : Nat → Bool) :
    Module (Body σ) σ :=
  ⟨name, programs.mapIdx fun i p => ⟨p.1, some p.2, if compiled i then some p.2 else none⟩⟩

namespace Module

variable {name : String} {programs : Array (Signature × Body σ)} {compiled : Nat → Bool}

theorem mem_ofPrograms {f : Function (Body σ) σ} (h : f ∈ (ofPrograms name programs compiled).functions) :
    ∃ p ∈ programs, ∃ b : Bool, f = ⟨p.1, some p.2, if b then some p.2 else none⟩ := by
  obtain ⟨i, hi, rfl⟩ := Array.mem_mapIdx.1 h
  exact ⟨programs[i], Array.getElem_mem hi, compiled i, rfl⟩

theorem uncompiled_ofPrograms (compiled compiled' : Nat → Bool) :
    (ofPrograms name programs compiled).uncompiled = (ofPrograms name programs compiled').uncompiled := by
  unfold uncompiled ofPrograms
  congr 1
  apply Array.ext
  · simp
  · intro i hi hi'
    simp [Function.uncompiled]

theorem uniform_ofPrograms : (ofPrograms name programs compiled).Uniform .ofPrograms := by
  intro f hf body hbody
  obtain ⟨p, -, b, rfl⟩ := mem_ofPrograms hf
  cases b with
  | false => cases hbody
  | true => exact (Option.some.inj hbody).symm

theorem avoids_ofPrograms {bad : Op σ → Bool} (h : ∀ p ∈ programs, p.2.Avoids bad) :
    (ofPrograms name programs compiled).Avoids .ofPrograms bad := by
  intro f hf
  obtain ⟨p, hp, b, rfl⟩ := mem_ofPrograms hf
  exact h p hp

theorem eachBody_ofPrograms {P : Body σ → Prop} (h : ∀ p ∈ programs, P p.2) :
    (ofPrograms name programs compiled).EachBody .ofPrograms P := by
  intro f hf
  obtain ⟨p, hp, b, rfl⟩ := mem_ofPrograms hf
  refine ⟨h p hp, fun body hbody => ?_⟩
  cases b with
  | false => cases hbody
  | true => exact Option.some.inj hbody ▸ h p hp

end Module

/-- A machine of this convention, with an empty stack, that has loaded a module of programs. -/
def Machine.ofPrograms (c : Convention) (limit : Nat) (programs : Array (Signature × Body σ)) (compiled : Nat → Bool) :
    Machine (Body σ) σ :=
  { config := .withConvention c, interpreter := .ofPrograms, stack := .empty limit,
    module := some (.ofPrograms "programs" programs compiled), stats := .zero, ready := true }

/-- **Machines that run the same programs are counterparts**, whatever their conventions and whatever is compiled. -/
theorem Machine.counterpart_ofPrograms {bad : Op σ → Bool} {programs : Array (Signature × Body σ)}
    (h : ∀ p ∈ programs, p.2.Avoids bad) (c c' : Convention) (limit : Nat) (compiled compiled' : Nat → Bool) :
    (ofPrograms c limit programs compiled).Counterpart bad (ofPrograms c' limit programs compiled') where
  interpreter := rfl
  maxRecursionDepth := rfl
  loopCount := rfl
  stack := rfl
  ready := rfl
  module := congrArg some (Module.uncompiled_ofPrograms compiled compiled')
  uniform := fun _ hM => Option.some.inj hM ▸ Module.uniform_ofPrograms
  uniform' := fun _ hM => Option.some.inj hM ▸ Module.uniform_ofPrograms
  avoids := fun _ hM => Option.some.inj hM ▸ Module.avoids_ofPrograms h

/-- The difference of the two arguments. -/
def Program.difference : Body Unit :=
  .step (.arg 0) fun (x : Except RuntimeError Word) => .step (.arg 1) fun (y : Except RuntimeError Word) =>
    .done (do return (← x) - (← y))

/-- Take 2 from the argument by `call`, then 1 from the result by `callWith`. -/
def Program.differences : Body Unit :=
  .step (.arg 0) fun
    | .error e => .done (.error e)
    | .ok x    => .step (.push x) fun _ => .step (.push 2) fun _ => .step (.call 0) fun _ => .step .pop fun
      | .error e => .done (.error e)
      | .ok y    => .step (.callWith 0 #[y, 1]) .done

/-- A function of two arguments and one that calls it both ways. -/
def samplePrograms : Array (Signature × Body Unit) :=
  #[(⟨"difference", 2, 0⟩, .difference), (⟨"differences", 1, 1⟩, .differences)]

/-- The sample programs do nothing but read an argument, push, pop and call. -/
theorem samplePrograms_avoid_of {bad : Op Unit → Bool} (harg : ∀ i, bad (.arg i) = false)
    (hpush : ∀ w, bad (.push w) = false) (hpop : bad .pop = false) (hcall : ∀ i, bad (.call i) = false)
    (hcallWith : ∀ i args, bad (.callWith i args) = false) : ∀ p ∈ samplePrograms, p.2.Avoids bad := by
  intro p hp
  simp only [samplePrograms, List.mem_toArray, List.mem_cons, List.not_mem_nil, or_false] at hp
  rcases hp with rfl | rfl
  · exact ⟨harg 0, fun x => ⟨harg 1, fun y => trivial⟩⟩
  · refine ⟨harg 0, fun x => ?_⟩
    cases x with
    | error e => trivial
    | ok x =>
      refine ⟨hpush x, fun _ => ⟨hpush 2, fun _ => ⟨hcall 0, fun _ => ⟨hpop, fun y => ?_⟩⟩⟩⟩
      cases y with
      | error e => trivial
      | ok y => exact ⟨hcallWith 0 #[y, 1], fun r => trivial⟩

theorem samplePrograms_avoid : ∀ p ∈ samplePrograms, p.2.Avoids Op.revealsPlacement :=
  samplePrograms_avoid_of (fun _ => rfl) (fun _ => rfl) rfl (fun _ => rfl) fun _ _ => rfl

end MixedMode
