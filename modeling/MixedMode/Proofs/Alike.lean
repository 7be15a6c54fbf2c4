import MixedMode.Proofs.Twin
/-!
# Alike — two runs in lockstep

Two runs of counterparts are alike when they have come equally far, every open frame of the one matches a frame of the
other, with the same words above its base, and the same has happened so far (`Moment.Alike`).  The stack of the run that
keeps arguments on it is never the shorter one (`ChainAlike.shorter`).  A step keeps two runs alike (`Moment.Alike.step`)
unless an operation overflows the deeper stack only, and hence so does a run (`Moment.Alike.iterate`).
-/
namespace MixedMode

variable {β σ : Type} {c c' : Convention}

/-- Two chains of open frames, innermost first, with the same words above their bases. -/
def ChainAlike (c c' : Convention) : List Word → List Word → List (OpenFrame β σ) → List (OpenFrame β σ) → Prop
  | words, words', [], []               => words' = words
  | words, words', o :: rest, o' :: rest' =>
    o.Alike o' ∧ (∃ window, words = o.below c ++ window ∧ words' = o'.below c' ++ window) ∧
      ChainAlike c c' o.under o'.under rest rest'
  | _, _, _, _ => False

namespace OpenFrame

variable {o o' : OpenFrame β σ}

theorem Alike.shorter_below (h : o.Alike o') (hkeeps : c.keepsStack = true) (hunder : Shorter c' o.under o'.under) :
    Shorter c' (o.below c) (o'.below c') := by
  rw [below, Convention.onStack_of_keepsStack hkeeps, if_pos rfl, below, h.passed]
  constructor
  · have := hunder.1
    split
    · rw [List.length_append, List.length_append]
      omega
    · rw [List.length_append]
      omega
  · intro hk
    rw [Convention.onStack_of_keepsStack hk, if_pos rfl, List.length_append, List.length_append, hunder.2 hk]

end OpenFrame

namespace ChainAlike

/-- **The stack that keeps the arguments is never the shorter one**; where both keep them they are as deep. -/
theorem shorter (hkeeps : c.keepsStack = true) : ∀ {words words' : List Word} {chain chain' : List (OpenFrame β σ)},
    ChainAlike c c' words words' chain chain' → Shorter c' words words'
  | _, _, [], [], h => by
    obtain rfl : _ = _ := h
    exact ⟨Nat.le_refl _, fun _ => rfl⟩
  | _, _, o :: rest, o' :: rest', ⟨ho, ⟨window, hw, hw'⟩, hrest⟩ => by
    obtain ⟨hle, heq⟩ := ho.shorter_below hkeeps (hrest.shorter hkeeps)
    rw [hw, hw']
    refine ⟨?_, fun hk => ?_⟩
    · rw [List.length_append, List.length_append]
      exact Nat.add_le_add_right hle _
    · rw [List.length_append, List.length_append, heq hk]

/-- **Where both conventions keep arguments on the stack, the stacks are the same.** -/
theorem words_eq (hkeeps : c.keepsStack = true) (hkeeps' : c'.keepsStack = true) :
    ∀ {words words' : List Word} {chain chain' : List (OpenFrame β σ)},
      ChainAlike c c' words words' chain chain' → words' = words
  | _, _, [], [], h => h
  | _, _, o :: rest, o' :: rest', ⟨ho, ⟨window, hw, hw'⟩, hrest⟩ => by
    have hunder := hrest.words_eq hkeeps hkeeps'
    rw [hw, hw', OpenFrame.below, OpenFrame.below, Convention.onStack_of_keepsStack hkeeps,
      Convention.onStack_of_keepsStack hkeeps', hunder, ho.passed]

theorem length_eq : ∀ {words words' : List Word} {chain chain' : List (OpenFrame β σ)},
    ChainAlike c c' words words' chain chain' → chain'.length = chain.length
  | _, _, [], [], _                         => rfl
  | _, _, _ :: _, _ :: _, ⟨_, _, hrest⟩ => congrArg (· + 1) hrest.length_eq

end ChainAlike

namespace Stage

/-- Two runs that have come equally far: the same bodies are left to do, none of which performs an operation that is
`bad`. -/
inductive Alike (bad : Op σ → Bool) : Stage β σ → Stage β σ → Prop
  | between (more next : Nat) (last : Word) : Alike bad (.between more next last) (.between more next last)
  | inside {more next : Nat} {active active' : OpenFrame β σ} {body : Body σ} {callers callers' : List (Caller β σ)}
      (hbody : body.Avoids bad) (hwaiting : callers'.map (·.waiting) = callers.map (·.waiting))
      (havoids : ∀ k ∈ callers, k.waiting.Avoids bad) :
      Alike bad (.inside more next active body callers) (.inside more next active' body callers')
  | ended (r : Except RuntimeError Word) : Alike bad (.ended r) (.ended r)

end Stage

namespace Moment

/-- The same has happened in two runs. -/
structure SameHistory (m m' : Moment β σ) : Prop where
  entered : m'.entries.map (·.function.uncompiled) = m.entries.map (·.function.uncompiled)
  answers : m'.answers = m.answers

/-- Two runs in lockstep. -/
structure Alike (bad : Op σ → Bool) (c c' : Convention) (m m' : Moment β σ) : Prop extends SameHistory m m' where
  stage : m.stage.Alike bad m'.stage
  chain : ChainAlike c c' m.state.stack.words m'.state.stack.words m.frames m'.frames
  kept : m'.state.kept = m.state.kept

end Moment

/-! ## What a step does to two runs -/

/-- A caller goes on alike, unless there is no room for the result of its callee on the deeper stack only. -/
theorem Waiting.resume_alike {bad : Op σ → Bool} {waiting : Waiting σ} (havoids : waiting.Avoids bad)
    (r : Except RuntimeError Word) {low low' : List Word} {s s' : CallState σ} (hs : s.Twin low low' s')
    (hlow : Shorter c' low low') (hroom : c'.keepsStack = true ∨ ¬ (waiting.resume r s).1.Overflows) :
    (waiting.resume r s').1 = (waiting.resume r s).1 ∧ (waiting.resume r s').2.1 = (waiting.resume r s).2.1 ∧
      (waiting.resume r s).2.1.Avoids bad ∧
      (waiting.resume r s).2.2.Twin low low' (waiting.resume r s').2.2 := by
  cases waiting with
  | call index next =>
    cases r with
    | error e => exact ⟨rfl, rfl, havoids _, hs⟩
    | ok w =>
      have hfits : c'.keepsStack = true ∨ s.stack.depth < s.stack.limit := by
        refine hroom.imp_right fun hno => ?_
        by_contra hlt
        exact hno ⟨s.stack.limit, CallState.failure?_push (Nat.le_of_not_lt hlt) w⟩
      obtain ⟨heq, hs'⟩ := hs.push hlow w hfits
      simp only [resume, heq]
      exact ⟨trivial, trivial, havoids _, hs'⟩
  | callWith index args next => exact ⟨rfl, rfl, havoids _, hs⟩

namespace Moment

variable {bad : Op σ → Bool} {cx cx' : Context β σ} {m m' : Moment β σ}

/-- Callees that are left with the same outcome leave the two runs alike. -/
theorem SameHistory.leave (h : m.SameHistory m') (hkeeps : c.keepsStack = true) (more next : Nat) {floor floor' : Nat}
    {under under' : List Word} {callers callers' : List (Caller β σ)} (r : Except RuntimeError Word)
    {s s' : CallState σ} (hwords : (s.truncate floor).stack.words = under)
    (hwords' : (s'.truncate floor').stack.words = under') (hlimit : s'.stack.limit = s.stack.limit)
    (hkept : s'.kept = s.kept)
    (hchain : ChainAlike c c' under under' (callers.map (·.opened)) (callers'.map (·.opened)))
    (hwaiting : callers'.map (·.waiting) = callers.map (·.waiting)) (havoids : ∀ k ∈ callers, k.waiting.Avoids bad)
    (hroom : c'.keepsStack = true ∨ ∀ a ∈ (m.leave more next floor r s callers).answers, ¬ a.Overflows) :
    (m.leave more next floor r s callers).Alike bad c c' (m'.leave more next floor' r s' callers') := by
  cases callers with
  | nil =>
    cases callers' with
    | cons k' callers' => cases hwaiting
    | nil =>
      have hwords'' : (s'.truncate floor').stack.words = (s.truncate floor).stack.words := by
        rw [hwords, hwords']
        exact hchain
      cases r with
      | error e => exact ⟨⟨h.entered, h.answers⟩, .ended _, hwords'', hkept⟩
      | ok w => exact ⟨⟨h.entered, h.answers⟩, .between .., hwords'', hkept⟩
  | cons k callers =>
    cases callers' with
    | nil => cases hwaiting
    | cons k' callers' =>
      obtain ⟨hk, hwaiting⟩ := List.cons.inj hwaiting
      obtain ⟨ho, ⟨window, hw, hw'⟩, hrest⟩ := hchain
      have hs : (s.truncate floor).Twin (k.opened.below c) (k'.opened.below c') (s'.truncate floor') :=
        ⟨⟨window, hwords.trans hw, hwords'.trans hw'⟩, hlimit, hkept⟩
      have hroom : c'.keepsStack = true ∨ ¬ (k.waiting.resume r (s.truncate floor)).1.Overflows :=
        hroom.imp_right fun hall => hall _ (List.mem_cons_self ..)
      obtain ⟨hanswer, hbody, hnext, hs'⟩ := Waiting.resume_alike (havoids k (List.mem_cons_self ..)) r hs
        (ho.shorter_below hkeeps (hrest.shorter hkeeps)) hroom
      simp only [Moment.leave, hk, hanswer, hbody]
      refine ⟨⟨h.entered, ?_⟩, .inside hnext hwaiting fun k hk => havoids k (List.mem_cons_of_mem _ hk),
        ⟨ho, hs'.words, hrest⟩, hs'.kept⟩
      rw [h.answers]

/-- Callees that are the same without their native entries are entered, or refused, in both runs. -/
theorem SameHistory.attempt (h : m.SameHistory m') (hcx : cx.Counterpart bad cx') (more next : Nat)
    {callee callee' : Function β σ} (hcallee : callee ∈ cx.module.functions) (hcallee' : callee' ∈ cx'.module.functions)
    (heq : callee.uncompiled = callee'.uncompiled) {entry entry' : Entry β σ} {passed under under' : List Word}
    {callers callers' : List (Caller β σ)} {s s' t t' : CallState σ}
    (hplaced : Entry.Placed cx.convention callee passed under s t entry)
    (hplaced' : Entry.Placed cx'.convention callee' passed under' s' t' entry')
    (hlimit : s'.stack.limit = s.stack.limit) (hkept : s'.kept = s.kept) (hnesting : s'.nesting = s.nesting)
    (hchain : ChainAlike cx.convention cx'.convention under under' (callers.map (·.opened)) (callers'.map (·.opened)))
    (hwaiting : callers'.map (·.waiting) = callers.map (·.waiting)) (havoids : ∀ k ∈ callers, k.waiting.Avoids bad)
    (hroom : cx'.convention.keepsStack = true ∨
      ∀ a ∈ (m.attempt cx more next entry passed under callers t).answers, ¬ a.Overflows) :
    (m.attempt cx more next entry passed under callers t).Alike bad cx.convention cx'.convention
      (m'.attempt cx' more next entry' passed under' callers' t') := by
  have hkept' : t'.kept = t.kept := by rw [hplaced.rest, hplaced'.rest]; exact hkept
  have hnesting' : t'.nesting = t.nesting := hplaced'.nesting.trans (hnesting.trans hplaced.nesting.symm)
  unfold Moment.attempt at hroom ⊢
  rw [hnesting', ← hcx.maxDepth]
  by_cases hlt : t.nesting < cx.maxDepth
  · rw [if_pos hlt, if_pos hlt]
    obtain ⟨hbody, hnext⟩ := hcx.bodyOf_eq hcallee hcallee' heq
    rw [← hplaced.target, ← hplaced'.target, ← hplaced.function, ← hplaced'.function] at hbody
    rw [← hplaced.target, ← hplaced.function] at hnext
    have hsame : entry'.function.uncompiled = entry.function.uncompiled := by
      rw [hplaced.function, hplaced'.function, heq]
    have hbelow : t.stack.words =
        OpenFrame.below cx.convention ⟨entry.frame t.stack.depth, entry.floor, passed, under⟩ := by
      rw [hplaced.words, OpenFrame.below, Entry.frame, hplaced.function]
    have hbelow' : t'.stack.words =
        OpenFrame.below cx'.convention ⟨entry'.frame t'.stack.depth, entry'.floor, passed, under'⟩ := by
      rw [hplaced'.words, OpenFrame.below, Entry.frame, hplaced'.function]
    rw [← hbody]
    refine ⟨⟨?_, h.answers⟩, .inside hnext hwaiting havoids, ⟨⟨hsame, ?_, rfl⟩, ⟨[], ?_, ?_⟩, hchain⟩, ?_⟩
    · rw [List.map_cons, List.map_cons, hsame, h.entered]
    · rw [Entry.frame, Entry.frame, Function.signature_eq hsame]
    · rw [CallState.stack_deeper, CallState.stack_countEntry, List.append_nil]
      exact hbelow
    · rw [CallState.stack_deeper, CallState.stack_countEntry, List.append_nil]
      exact hbelow'
    · rw [CallState.kept_deeper, CallState.kept_deeper, CallState.kept_countEntry, CallState.kept_countEntry]
      exact hkept'
  · rw [if_neg hlt] at hroom ⊢
    rw [if_neg hlt]
    exact h.leave hcx.keeps more next _ hplaced.words_truncate hplaced'.words_truncate
      (hplaced'.limit.trans (hlimit.trans hplaced.limit.symm)) hkept' hchain hwaiting havoids hroom

variable {f f' : Function β σ} {args : Array Word} {ground : OperandStack}

/-- **A step keeps two runs alike.** -/
theorem Alike.step (h : m.Alike bad cx.convention cx'.convention m') (hcx : cx.Counterpart bad cx')
    (hm : m.Sound cx.convention ground) (hm' : m'.Sound cx'.convention ground) (hf : f ∈ cx.module.functions)
    (hf' : f' ∈ cx'.module.functions) (heq : f.uncompiled = f'.uncompiled)
    (hroom : cx'.convention.keepsStack = true ∨ ∀ a ∈ (m.step cx f args).answers, ¬ a.Overflows) :
    (m.step cx f args).Alike bad cx.convention cx'.convention (m'.step cx' f' args) := by
  have hlimit : m'.state.stack.limit = m.state.stack.limit := hm'.limit.trans hm.limit.symm
  have hstages := h.stage
  have hchains := h.chain
  have hnesting : m'.state.nesting = m.state.nesting := by rw [hm'.nesting, hm.nesting, hchains.length_eq]
  have hchain := hm.chain
  have hchain' := hm'.chain
  generalize hstage : m.stage = stage at hstages
  generalize hstage' : m'.stage = stage' at hstages
  cases hstages with
  | ended r =>
    rw [step_ended hstage, step_ended hstage']
    exact h
  | between more next last =>
    rw [frames, hstage, frames, hstage'] at hchains
    have hwords : m'.state.stack.words = m.state.stack.words := hchains
    cases more with
    | zero =>
      rw [step_between_zero hstage, step_between_zero hstage']
      exact ⟨⟨h.entered, h.answers⟩, .ended _, hwords, h.kept⟩
    | succ more =>
      have hdepth : m'.state.stack.depth = m.state.stack.depth := congrArg List.length hwords
      rcases Entry.placed_fromOutside cx.convention f args m.state with ⟨entry, s, he, hp, hfits⟩ | ⟨he, hfull⟩ <;>
      rcases Entry.placed_fromOutside cx'.convention f' args m'.state with
        ⟨entry', s', he', hp', hfits'⟩ | ⟨he', hfull'⟩
      · rw [step_between_ok hstage he] at hroom ⊢
        rw [step_between_ok hstage' he']
        exact h.toSameHistory.attempt hcx more next hf hf' heq hp hp' hlimit h.kept hnesting hwords rfl
          (fun k hk => by cases hk) hroom
      · omega
      · omega
      · rw [step_between_error hstage he, step_between_error hstage' he', hlimit]
        exact ⟨⟨h.entered, h.answers⟩, .ended _, hwords, h.kept⟩
  | @inside more next active active' body callers callers' hbody hwaiting havoids =>
    rw [frames_of_stage hstage, frames_of_stage hstage'] at hchains
    rw [frames_of_stage hstage] at hchain
    rw [frames_of_stage hstage'] at hchain'
    obtain ⟨ho, hwindow, hrest⟩ := hchains
    obtain ⟨hsound, hbelow, -⟩ := hchain
    obtain ⟨hsound', hbelow', -⟩ := hchain'
    cases body with
    | done r =>
      rw [step_done hstage] at hroom ⊢
      rw [step_done hstage']
      exact h.toSameHistory.leave hcx.keeps more next r (hsound.words_truncate hbelow) (hsound'.words_truncate hbelow')
        hlimit h.kept hrest hwaiting havoids hroom
    | step op k =>
      obtain ⟨hop, hk⟩ := hbody
      -- an answer that is an overflow would be among those that `hroom` speaks of
      have hroom' : cx'.convention.keepsStack = true ∨ ¬ (cx.advance active.frame m.state op k).Overflows := by
        refine hroom.imp_right fun hall => ?_
        cases ha : cx.advance active.frame m.state op k with
        | answered a body g t =>
          rw [step_answered hstage ha] at hall
          exact hall a (List.mem_cons_self ..)
        | placed => exact id
      have hadvance := hcx.advance_alike ho hsound hsound' ⟨hwindow, hlimit, h.kept⟩
        (ho.shorter_below hcx.keeps (hrest.shorter hcx.keeps)) hop hk hroom'
      generalize ha : cx.advance active.frame m.state op k = advance at hadvance
      generalize ha' : cx'.advance active'.frame m'.state op k = advance' at hadvance
      cases hadvance with
      | answered hframe hnext htwin =>
        obtain ⟨locals, rfl, rfl⟩ := hframe
        rw [step_answered hstage ha, step_answered hstage' ha']
        refine ⟨⟨h.entered, ?_⟩, .inside hnext hwaiting havoids,
          ⟨⟨ho.function, rfl, ho.passed⟩, htwin.words, hrest⟩, htwin.kept⟩
        rw [h.answers]
      | placed hcallee hcallee' hsame harity hp hp' hunder hnext =>
        rw [step_placed hstage ha] at hroom ⊢
        rw [step_placed hstage' ha']
        refine h.toSameHistory.attempt hcx more next hcallee hcallee' hsame hp hp' hlimit h.kept hnesting
          ⟨ho, hunder, hrest⟩ (congrArg (List.cons _) hwaiting) (fun k' hk' => ?_) hroom
        rcases List.mem_cons.1 hk' with rfl | hk'
        · exact hnext
        · exact havoids k' hk'

/-- **A run keeps two moments alike**, as long as no operation overflows the deeper stack only. -/
theorem Alike.iterate (h : m.Alike bad cx.convention cx'.convention m') (hcx : cx.Counterpart bad cx')
    (hm : m.Sound cx.convention ground) (hm' : m'.Sound cx'.convention ground) (hf : f ∈ cx.module.functions)
    (hf' : f' ∈ cx'.module.functions) (heq : f.uncompiled = f'.uncompiled) (hargs : args.size = f.arity)
    (hroom : cx'.convention.keepsStack = true ∨ ∀ n, ∀ a ∈ ((Moment.step cx f args)^[n] m).answers, ¬ a.Overflows) :
    ∀ n, ((Moment.step cx f args)^[n] m).Alike bad cx.convention cx'.convention ((Moment.step cx' f' args)^[n] m')
  | 0     => h
  | n + 1 => by
    have hargs' : args.size = f'.arity := hargs.trans (Function.arity_eq heq)
    have ih := h.iterate hcx hm hm' hf hf' heq hargs hroom n
    have hlater := hroom.imp_right fun hall => hall (n + 1)
    rw [Function.iterate_succ_apply'] at hlater ⊢
    rw [Function.iterate_succ_apply']
    exact ih.step hcx (sound_iterate hm hargs n) (sound_iterate hm' hargs' n) hf hf' heq hlater

theorem alike_start (more : Nat) {s s' : CallState σ} (hwords : s'.stack.words = s.stack.words)
    (hkept : s'.kept = s.kept) : (start more s : Moment β σ).Alike bad c c' (start more s') :=
  ⟨⟨rfl, rfl⟩, .between .., hwords, hkept⟩

end Moment
end MixedMode
