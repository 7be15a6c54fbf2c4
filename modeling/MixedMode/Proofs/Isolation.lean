import MixedMode.Proofs.StackEffect
import MixedMode.Proofs.Twin
/-!
# Isolation — a callee and the words of its caller

A body looks at no word below its base but its own arguments, and it finds those where its caller put them.  So it makes
no difference to a callee which words are below its arguments.  Two states that differ only there (`SameAbove`) stay so,
operation by operation, at every nesting level (`Context.enter_confined`), and what is done in between, the operations
and their answers (`Transcript`), is the same.
-/
namespace MixedMode

variable {β σ α : Type}

/-! ## What a callee does -/

/-- An operation of a body, the answer it got and, if it was a call, all that its callee did. -/
inductive Exchange (σ : Type) : Type where
  | mk (op : Op σ) (answer : op.Answer) (within : List (Exchange σ))

/-- What a body does, from its entry to its end. -/
abbrev Transcript (σ : Type) := List (Exchange σ)

/-- What a callee does once its arguments are in place; nothing, if the call was refused before that. -/
def Entry.transcript (record : Entry β σ → CallState σ → Transcript σ) :
    Except RuntimeError (Entry β σ) × CallState σ → Transcript σ
  | (.ok entry, s) => record entry s
  | (.error _, _)  => []

/-- What happens within an operation: what the callee does, if it is a call. -/
def Context.within (cx : Context β σ) (record : Entry β σ → CallState σ → Transcript σ) :
    Op σ → Frame β σ → CallState σ → Transcript σ
  | .call index, f, s          => Entry.transcript record (f.placeCall cx index s)
  | .callWith index args, _, s => Entry.transcript record (Frame.placeCallWith cx index args s)
  | _, _, _                    => []

namespace Program

variable (perform : (op : Op σ) → Frame β σ → CallState σ → op.Answer × Frame β σ × CallState σ)
  (within : Op σ → Frame β σ → CallState σ → Transcript σ)

/-- What a program does when it is run. -/
def transcript : Program σ α → Frame β σ → CallState σ → Transcript σ
  | .done _, _, _    => []
  | .step op k, f, s =>
    match perform op f s with
    | (answer, f', s') => .mk op answer (within op f s) :: (k answer).transcript f' s'

/-- Given these answers in turn, the program asks these questions and comes to this value. -/
inductive Follows : Program σ α → Transcript σ → α → Prop
  | done (a : α) : Follows (.done a) [] a
  | step {op : Op σ} {k : op.Answer → Program σ α} {answer : op.Answer} {within rest : Transcript σ} {a : α}
      (next : Follows (k answer) rest a) : Follows (.step op k) (.mk op answer within :: rest) a

/-- **A program comes to its value by the answers of its transcript.** -/
theorem follows_transcript : ∀ (p : Program σ α) (f : Frame β σ) (s : CallState σ),
    p.Follows (p.transcript perform within f s) (p.run perform f s).1
  | .done a, _, _    => .done a
  | .step op k, f, s =>
    .step (follows_transcript (k (perform op f s).1) (perform op f s).2.1 (perform op f s).2.2)

end Program

/-- What a callee does that is entered by `Context.enter` with the same bound; nothing, if the counter refuses it. -/
def Context.transcript (cx : Context β σ) : Nat → Entry β σ → CallState σ → Transcript σ
  | 0, _, _              => []
  | levels + 1, entry, s =>
    if cx.maxDepth ≤ s.nesting then []
    else
      let s := s.countEntry cx.convention entry.function entry.target
      (cx.bodyOf entry.function entry.target).transcript (cx.perform (cx.enter levels))
        (cx.within (cx.transcript levels)) (entry.frame s.stack.depth) s.deeper

/-! ## States that differ at the bottom of their stacks -/

/-- Two states that are the same but for the words at the bottom of their stacks: `low` and as many words `low'`. -/
structure CallState.SameAbove (low low' : List Word) (s s' : CallState σ) : Prop extends s.Twin low low' s' where
  length : low'.length = low.length
  stats : s'.stats = s.stats
  events : s'.events = s.events
  nesting : s'.nesting = s.nesting

namespace CallState.SameAbove

variable {low low' mid : List Word} {s s' : CallState σ} {f : Frame β σ}

theorem depth_eq (h : s.SameAbove low low' s') : s'.stack.depth = s.stack.depth := by
  obtain ⟨window, hw, hw'⟩ := h.words
  rw [OperandStack.depth_eq_length, OperandStack.depth_eq_length, hw, hw', List.length_append, List.length_append,
    h.length]

theorem le_depth (h : s.SameAbove low low' s') : low.length ≤ s.stack.depth := by
  obtain ⟨window, hw, -⟩ := h.words
  rw [OperandStack.depth_eq_length, hw, List.length_append]
  exact Nat.le_add_right _ _

theorem available_eq (h : s.SameAbove low low' s') : f.available s'.stack = f.available s.stack := by
  rw [Frame.available, Frame.available, h.depth_eq]

/-- States that are the same above more words are the same above fewer. -/
theorem lower (h : s.SameAbove (low ++ mid) (low' ++ mid) s') (hlow : low'.length = low.length) :
    s.SameAbove low low' s' := by
  obtain ⟨window, hw, hw'⟩ := h.words
  rw [List.append_assoc] at hw hw'
  exact ⟨⟨⟨mid ++ window, hw, hw'⟩, h.limit, h.kept⟩, hlow, h.stats, h.events, h.nesting⟩

/-- States that are the same from some slot on are the same from any slot above it. -/
theorem raise (h : s.SameAbove low low' s') {slot : Nat} (hlow : low.length ≤ slot) (hslot : slot ≤ s.stack.depth) :
    ∃ mid, (low ++ mid).length = slot ∧ s.SameAbove (low ++ mid) (low' ++ mid) s' := by
  obtain ⟨window, hw, hw'⟩ := h.words
  rw [OperandStack.depth_eq_length, hw, List.length_append] at hslot
  refine ⟨window.take (slot - low.length), ?_, ⟨⟨window.drop (slot - low.length), ?_, ?_⟩, h.limit, h.kept⟩, ?_,
    h.stats, h.events, h.nesting⟩
  · rw [List.length_append, List.length_take]
    omega
  · rw [List.append_assoc, List.take_append_drop, hw]
  · rw [List.append_assoc, List.take_append_drop, hw']
  · rw [List.length_append, List.length_append, h.length]

theorem truncate (h : s.SameAbove low low' s') {slot : Nat} (hlow : low.length ≤ slot) :
    (s.truncate slot).SameAbove low low' (s'.truncate slot) := by
  obtain ⟨window, hw, hw'⟩ := h.words
  refine ⟨⟨⟨window.take (slot - low.length), ?_, ?_⟩, h.limit, h.kept⟩, h.length, h.stats, h.events, h.nesting⟩
  · rw [truncate_eq, OperandStack.words_truncate, hw, List.take_append, List.take_of_length_le hlow]
  · have hlow' : low'.length ≤ slot := by
      rw [h.length]
      exact hlow
    rw [truncate_eq, OperandStack.words_truncate, hw', List.take_append, List.take_of_length_le hlow', h.length]

theorem push (h : s.SameAbove low low' s') (w : Word) :
    (s'.onStack (·.push w)).1 = (s.onStack (·.push w)).1 ∧
      (s.onStack (·.push w)).2.SameAbove low low' (s'.onStack (·.push w)).2 := by
  have hshorter : Shorter .interpreter low low' := ⟨Nat.le_of_eq h.length, fun _ => h.length⟩
  obtain ⟨hr, htwin⟩ := h.toTwin.push hshorter w (.inl rfl)
  exact ⟨hr, htwin, h.length, h.stats, h.events, h.nesting⟩

theorem pop (h : s.SameAbove low low' s') (hbase : low.length ≤ f.base) :
    (f.pop s').1 = (f.pop s).1 ∧ (f.pop s).2.SameAbove low low' (f.pop s').2 := by
  have hrest : ∀ s : CallState σ, (f.pop s).2.stats = s.stats ∧ (f.pop s).2.events = s.events := by
    intro s
    unfold Frame.pop
    split <;> exact ⟨rfl, rfl⟩
  by_cases hseated : f.base ≤ s.stack.depth
  · obtain ⟨mid, hmid, hmids⟩ := h.raise hbase hseated
    have hmid' : f.base = (low' ++ mid).length := hmid.symm.trans hmids.length.symm
    obtain ⟨hr, htwin⟩ := hmids.toTwin.pop hmid.symm hmid'
    have hsame : (f.pop s).2.SameAbove (low ++ mid) (low' ++ mid) (f.pop s').2 := by
      refine ⟨htwin, hmids.length, ?_, ?_, ?_⟩
      · rw [(hrest s).1, (hrest s').1, h.stats]
      · rw [(hrest s).2, (hrest s').2, h.events]
      · rw [f.nesting_pop, f.nesting_pop, h.nesting]
    exact ⟨hr, hsame.lower h.length⟩
  · have hnone : f.available s.stack = 0 := Nat.sub_eq_zero_of_le (Nat.le_of_not_le hseated)
    unfold Frame.pop
    rw [h.available_eq, if_pos hnone, if_pos hnone]
    exact ⟨rfl, h⟩

theorem peek (h : s.SameAbove low low' s') (hbase : low.length ≤ f.base) (distance : Nat) :
    f.peek s'.stack distance = f.peek s.stack distance := by
  by_cases hseated : f.base ≤ s.stack.depth
  · obtain ⟨mid, hmid, hmids⟩ := h.raise hbase hseated
    exact hmids.toTwin.peek hmid.symm (hmid.symm.trans hmids.length.symm) distance
  · have hnone : f.available s.stack = 0 := Nat.sub_eq_zero_of_le (Nat.le_of_not_le hseated)
    unfold Frame.peek
    rw [h.available_eq, hnone, if_neg (Nat.not_lt_zero _), if_neg (Nat.not_lt_zero _)]

theorem get? (h : s.SameAbove low low' s') {slot : Nat} (hlow : low.length ≤ slot) :
    s'.stack.get? slot = s.stack.get? slot := by
  obtain ⟨window, hw, hw'⟩ := h.words
  have hlow' : low'.length ≤ slot := by
    rw [h.length]
    exact hlow
  rw [OperandStack.get?_eq, OperandStack.get?_eq, hw, hw', List.getElem?_append_right hlow,
    List.getElem?_append_right hlow', h.length]

theorem arg (h : s.SameAbove low low' s') (hargs : ∀ base, f.args = .stack base → low.length ≤ base) (index : Nat) :
    f.arg s'.stack index = f.arg s.stack index := by
  unfold Frame.arg
  cases hf : f.args with
  | registers words => rfl
  | stack base =>
    have hslot : low.length ≤ base + index := Nat.le_trans (hargs base hf) (Nat.le_add_right _ _)
    dsimp only
    rw [h.get? hslot]

theorem countEntry (h : s.SameAbove low low' s') (c : Convention) (g : Function β σ) (target : CallTarget σ) :
    (s.countEntry c g target).SameAbove low low' (s'.countEntry c g target) := by
  unfold CallState.countEntry
  rw [h.stats, h.events]
  repeat' split
  all_goals exact ⟨⟨h.words, h.limit, h.kept⟩, h.length, rfl, rfl, h.nesting⟩

theorem deeper (h : s.SameAbove low low' s') : s.deeper.SameAbove low low' s'.deeper :=
  ⟨⟨h.words, h.limit, h.kept⟩, h.length, h.stats, h.events, congrArg (· + 1) h.nesting⟩

theorem shallower (h : s.SameAbove low low' s') : s.shallower.SameAbove low low' s'.shallower :=
  ⟨⟨h.words, h.limit, h.kept⟩, h.length, h.stats, h.events, congrArg (· - 1) h.nesting⟩

theorem keep (h : s.SameAbove low low' s') (kept : σ) :
    CallState.SameAbove low low' { s with kept } { s' with kept } :=
  ⟨⟨h.words, h.limit, rfl⟩, h.length, h.stats, h.events, h.nesting⟩

end CallState.SameAbove

/-! ## Placing arguments above the words that differ -/

/-- The callee was placed where it finds nothing below this slot. -/
def Entry.StartsAbove (slot : Nat) (entry : Entry β σ) : Prop :=
  slot ≤ entry.floor ∧ ∀ base, entry.args = .stack base → slot ≤ base

/-- Two ways to place a callee that come to the same: both are refused, for the same reason, or the callee is entered
alike in states that are the same above `low` and `low'`. -/
inductive Entry.PlacedAlike (low low' : List Word) :
    Except RuntimeError (Entry β σ) × CallState σ → Except RuntimeError (Entry β σ) × CallState σ → Prop
  | refused (e : RuntimeError) {s s' : CallState σ} (hs : s.SameAbove low low' s') :
      PlacedAlike low low' (.error e, s) (.error e, s')
  | placed {entry : Entry β σ} {s s' : CallState σ} (hs : s.SameAbove low low' s')
      (hentry : entry.StartsAbove low.length) : PlacedAlike low low' (.ok entry, s) (.ok entry, s')

namespace CallState.SameAbove

variable {low low' mid passed : List Word} {s s' t t' : CallState σ} {c : Convention} {g : Function β σ}
  {entry entry' : Entry β σ}

/-- The same words placed above `low ++ mid` and above `low' ++ mid` are placed alike. -/
theorem placedAlike (h : s.SameAbove low low' s') (hp : Entry.Placed c g passed (low ++ mid) s t entry)
    (hp' : Entry.Placed c g passed (low' ++ mid) s' t' entry') :
    Entry.PlacedAlike low low' (.ok entry, t) (.ok entry', t') := by
  have hlength : (low' ++ mid).length = (low ++ mid).length := by
    rw [List.length_append, List.length_append, h.length]
  obtain rfl := hp.entry_eq hp' hlength
  have hlow : low.length ≤ (low ++ mid).length := by
    rw [List.length_append]
    exact Nat.le_add_right _ _
  refine .placed ⟨⟨?_, ?_, ?_⟩, h.length, ?_, ?_, ?_⟩ ⟨?_, ?_⟩
  · rw [hp.words, hp'.words]
    split
    · exact ⟨mid ++ passed, List.append_assoc .., List.append_assoc ..⟩
    · exact ⟨mid, rfl, rfl⟩
  · rw [hp.limit, hp'.limit, h.limit]
  · rw [hp.rest, hp'.rest]
    exact h.kept
  · rw [hp.rest, hp'.rest]
    exact h.stats
  · rw [hp.rest, hp'.rest]
    exact h.events
  · rw [hp.nesting, hp'.nesting, h.nesting]
  · rw [hp.floor]
    exact hlow
  · intro base hbase
    rw [hp.args] at hbase
    split at hbase
    · cases hbase
    · cases hbase
      exact hlow

theorem placeCall (h : s.SameAbove low low' s') (cx : Context β σ) (f : Frame β σ) (index : Nat)
    (hslot : ∀ callee, cx.module.function? index = some callee → callee.arity ≤ f.available s.stack →
      low.length ≤ s.stack.depth - callee.arity) :
    Entry.PlacedAlike low low' (f.placeCall cx index s) (f.placeCall cx index s') := by
  unfold Frame.placeCall
  cases hcallee : cx.module.function? index with
  | none => exact .refused _ h
  | some callee =>
    dsimp only
    rw [h.available_eq, h.depth_eq]
    by_cases hmissing : f.available s.stack < callee.arity
    · rw [if_pos hmissing, if_pos hmissing]
      exact .refused _ h
    · rw [if_neg hmissing, if_neg hmissing]
      have hdepth : s.stack.depth - callee.arity ≤ s.stack.depth := Nat.sub_le _ _
      have hdepth' : s.stack.depth - callee.arity ≤ s'.stack.depth := h.depth_eq ▸ hdepth
      have hp := Entry.placed_fromStack cx.convention callee hdepth
      have hp' := Entry.placed_fromStack cx.convention callee hdepth'
      obtain ⟨mid, hmid, hmids⟩ := h.raise (hslot callee hcallee (Nat.le_of_not_lt hmissing)) hdepth
      obtain ⟨window, hw, hw'⟩ := hmids.words
      rw [hw, List.take_left' hmid, List.drop_left' hmid] at hp
      rw [hw', List.take_left' (hmids.length.trans hmid), List.drop_left' (hmids.length.trans hmid)] at hp'
      exact h.placedAlike hp hp'

/-- Words from elsewhere are placed above all that is on the stack, unless they need room there and find none; the two
stacks have as much. -/
theorem placedAlike_of_room (h : s.SameAbove low low' s') (c : Convention) (g : Function β σ) (args : Array Word)
    (needed : Prop) {placing placing' : Except RuntimeError (Entry β σ) × CallState σ}
    (hplacing : (∃ entry t, placing = (.ok entry, t) ∧ Entry.Placed c g args.toList s.stack.words s t entry ∧
        (needed → s.stack.depth + args.size ≤ s.stack.limit)) ∨
      (placing = (.error (.stackOverflow s.stack.limit), s) ∧ needed ∧ s.stack.limit < s.stack.depth + args.size))
    (hplacing' : (∃ entry t, placing' = (.ok entry, t) ∧ Entry.Placed c g args.toList s'.stack.words s' t entry ∧
        (needed → s'.stack.depth + args.size ≤ s'.stack.limit)) ∨
      (placing' = (.error (.stackOverflow s'.stack.limit), s') ∧ needed ∧
        s'.stack.limit < s'.stack.depth + args.size)) :
    Entry.PlacedAlike low low' placing placing' := by
  rw [h.limit, h.depth_eq] at hplacing'
  rcases hplacing with ⟨entry, t, rfl, hp, hroom⟩ | ⟨rfl, hneeded, hfull⟩
  · rcases hplacing' with ⟨entry', t', rfl, hp', -⟩ | ⟨-, hneeded, hfull⟩
    · obtain ⟨mid, hw, hw'⟩ := h.words
      rw [hw] at hp
      rw [hw'] at hp'
      exact h.placedAlike hp hp'
    · exact absurd (hroom hneeded) (Nat.not_le_of_lt hfull)
  · rcases hplacing' with ⟨_, _, -, -, hroom⟩ | ⟨rfl, -, -⟩
    · exact absurd (hroom hneeded) (Nat.not_le_of_lt hfull)
    · exact .refused _ h

theorem placeCallWith (h : s.SameAbove low low' s') (cx : Context β σ) (index : Nat) (args : Array Word) :
    Entry.PlacedAlike low low' (Frame.placeCallWith cx index args s) (Frame.placeCallWith cx index args s') := by
  unfold Frame.placeCallWith
  cases hcallee : cx.module.function? index with
  | none => exact .refused _ h
  | some callee =>
    dsimp only
    by_cases hcount : args.size = callee.arity
    · rw [if_pos hcount, if_pos hcount]
      exact h.placedAlike_of_room cx.convention callee args _ (Entry.placed_fromWords cx.convention callee args s)
        (Entry.placed_fromWords cx.convention callee args s')
    · rw [if_neg hcount, if_neg hcount]
      exact .refused _ h

theorem fromOutside (h : s.SameAbove low low' s') (c : Convention) (g : Function β σ) (args : Array Word) :
    Entry.PlacedAlike low low' (Entry.fromOutside c g args s) (Entry.fromOutside c g args s') := by
  have hplacing := Entry.placed_fromOutside c g args s
  have hplacing' := Entry.placed_fromOutside c g args s'
  refine h.placedAlike_of_room c g args True ?_ ?_
  · simpa only [true_imp_iff, true_and] using hplacing
  · simpa only [true_imp_iff, true_and] using hplacing'

end CallState.SameAbove

/-! ## Running a callee above the words that differ -/

/-- Two runs of a callee that come to the same: the same answer after the same operations with the same answers, in
states that are the same above `low` and `low'`, each of which is where it was. -/
structure SameCourse (low low' : List Word) (run run' : α × CallState σ) (did did' : Transcript σ) : Prop where
  answer : run'.1 = run.1
  transcript : did' = did
  state : run.2.SameAbove low low' run'.2

/-- Running a callee comes to the same in states that are the same above words it does not find. -/
def Enter.Confined (enter : Enter β σ) (record : Entry β σ → CallState σ → Transcript σ) : Prop :=
  ∀ ⦃low low' : List Word⦄ ⦃s s' : CallState σ⦄ ⦃entry : Entry β σ⦄, s.SameAbove low low' s' →
    entry.StartsAbove low.length →
    SameCourse low low' (enter entry s) (enter entry s') (record entry s) (record entry s')

/-- The frame has nothing below this slot. -/
def Frame.StartsAbove (slot : Nat) (f : Frame β σ) : Prop :=
  slot ≤ f.base ∧ ∀ base, f.args = .stack base → slot ≤ base

theorem Entry.StartsAbove.frame {slot depth : Nat} {entry : Entry β σ} (h : entry.StartsAbove slot)
    (hdepth : slot ≤ depth) : (entry.frame depth).StartsAbove slot :=
  ⟨hdepth, h.2⟩

section

variable {cx : Context β σ} {enter : Enter β σ} {record : Entry β σ → CallState σ → Transcript σ}
  {low low' : List Word} {s s' : CallState σ} {f : Frame β σ} {entry : Entry β σ}

namespace Enter.Confined

theorem leave (he : enter.Confined record) (hs : s.SameAbove low low' s') (hentry : entry.StartsAbove low.length) :
    SameCourse low low' (enter.leave entry s) (enter.leave entry s') (record entry s) (record entry s') := by
  have hsame := he hs hentry
  exact ⟨hsame.answer, hsame.transcript, hsame.state.truncate hentry.1⟩

/-- **`call` comes to the same** in states that are the same above words it does not pass. -/
theorem call (he : enter.Confined record) (cx : Context β σ) (hs : s.SameAbove low low' s') {index : Nat}
    (hslot : ∀ callee, cx.module.function? index = some callee → callee.arity ≤ f.available s.stack →
      low.length ≤ s.stack.depth - callee.arity) :
    SameCourse low low' (f.call cx enter index s) (f.call cx enter index s') (cx.within record (.call index) f s)
      (cx.within record (.call index) f s') := by
  have hplaced := hs.placeCall cx f index hslot
  simp only [Context.within]
  unfold Frame.call
  generalize f.placeCall cx index s = placing at hplaced ⊢
  generalize f.placeCall cx index s' = placing' at hplaced ⊢
  cases hplaced with
  | refused e hs => exact ⟨rfl, rfl, hs⟩
  | @placed entry t t' ht hentry =>
    have hleft := he.leave ht hentry
    dsimp only
    rw [← Prod.eta (enter.leave entry t'), ← Prod.eta (enter.leave entry t), hleft.answer]
    cases (enter.leave entry t).1 with
    | error e => exact ⟨rfl, hleft.transcript, hleft.state⟩
    | ok w =>
      obtain ⟨hr, hpushed⟩ := hleft.state.push w
      exact ⟨hr, hleft.transcript, hpushed⟩

/-- **`callWith` comes to the same** in states that are the same above words at the bottom. -/
theorem callWith (he : enter.Confined record) (cx : Context β σ) (hs : s.SameAbove low low' s') (f : Frame β σ)
    (index : Nat) (args : Array Word) :
    SameCourse low low' (Frame.callWith cx enter index args s) (Frame.callWith cx enter index args s')
      (cx.within record (.callWith index args) f s) (cx.within record (.callWith index args) f s') := by
  have hplaced := hs.placeCallWith cx index args
  simp only [Context.within]
  unfold Frame.callWith
  generalize Frame.placeCallWith cx index args s = placing at hplaced ⊢
  generalize Frame.placeCallWith cx index args s' = placing' at hplaced ⊢
  cases hplaced with
  | refused e hs => exact ⟨rfl, rfl, hs⟩
  | placed ht hentry => exact he.leave ht hentry

end Enter.Confined

namespace Context

variable (cx)

/-- A frame keeps its base and its arguments. -/
theorem startsAbove_perform {slot : Nat} (hf : f.StartsAbove slot) (op : Op σ) (s : CallState σ) :
    (cx.perform enter op f s).2.1.StartsAbove slot := by
  cases op with
  | setLocal index value =>
    simp only [perform, Frame.setLocal]
    split <;> exact hf
  | _ => exact hf

/-- **An operation comes to the same** in states that are the same above words below the frame. -/
theorem perform_confined (he : enter.Confined record) (op : Op σ) (hf : f.StartsAbove low.length)
    (hs : s.SameAbove low low' s') :
    (cx.perform enter op f s').1 = (cx.perform enter op f s).1 ∧
      (cx.perform enter op f s').2.1 = (cx.perform enter op f s).2.1 ∧
      (cx.perform enter op f s).2.2.SameAbove low low' (cx.perform enter op f s').2.2 ∧
      cx.within record op f s' = cx.within record op f s := by
  cases op with
  | arg index => exact ⟨hs.arg hf.2 index, rfl, hs, rfl⟩
  | push value =>
    obtain ⟨hr, hpushed⟩ := hs.push value
    exact ⟨hr, rfl, hpushed, rfl⟩
  | pop =>
    obtain ⟨hr, hpopped⟩ := hs.pop hf.1
    exact ⟨hr, rfl, hpopped, rfl⟩
  | peek distance => exact ⟨hs.peek hf.1 distance, rfl, hs, rfl⟩
  | call index =>
    have hslot : ∀ callee, cx.module.function? index = some callee → callee.arity ≤ f.available s.stack →
        low.length ≤ s.stack.depth - callee.arity := by
      intro callee _ harity
      have hbase := hf.1
      have hdepth := hs.le_depth
      unfold Frame.available at harity
      omega
    have hsame := he.call cx hs hslot
    exact ⟨hsame.answer, rfl, hsame.state, hsame.transcript⟩
  | callWith index args =>
    have hsame := he.callWith cx hs f index args
    exact ⟨hsame.answer, rfl, hsame.state, hsame.transcript⟩
  | depth => exact ⟨hs.depth_eq, rfl, hs, rfl⟩
  | memory => exact ⟨hs.kept, rfl, hs, rfl⟩
  | keep kept => exact ⟨rfl, rfl, hs.keep kept, rfl⟩
  | _ => exact ⟨rfl, rfl, hs, rfl⟩

/-- **A program comes to the same**, by induction on the program: each operation leaves states that are the same above
the words at the bottom, and a frame that has nothing of them. -/
theorem run_confined (he : enter.Confined record) : ∀ (p : Program σ α) {f : Frame β σ} {s s' : CallState σ},
    f.StartsAbove low.length → s.SameAbove low low' s' →
    (p.run (cx.perform enter) f s').1 = (p.run (cx.perform enter) f s).1 ∧
      (p.run (cx.perform enter) f s).2.2.SameAbove low low' (p.run (cx.perform enter) f s').2.2 ∧
      p.transcript (cx.perform enter) (cx.within record) f s' = p.transcript (cx.perform enter) (cx.within record) f s
  | .done _, _, _, _, _, hs      => ⟨rfl, hs, rfl⟩
  | .step op k, f, s, s', hf, hs => by
    obtain ⟨hanswer, hframe, hstate, hwithin⟩ := cx.perform_confined he op hf hs
    obtain ⟨hr, hlast, hrest⟩ := run_confined he (k (cx.perform enter op f s).1) (cx.startsAbove_perform hf op s) hstate
    simp only [Program.run, Program.transcript]
    rw [hanswer, hframe, hwithin, hrest]
    exact ⟨hr, hlast, rfl⟩

/-- **A callee comes to the same**, whatever its body does and however deep it calls. -/
theorem enter_confined : ∀ levels : Nat, (cx.enter levels).Confined (cx.transcript levels)
  | 0 => by
    intro low low' s s' entry hs _
    exact ⟨rfl, rfl, hs⟩
  | levels + 1 => by
    intro low low' s s' entry hs hentry
    have hcounted := hs.countEntry cx.convention entry.function entry.target
    have hf := hentry.frame hcounted.le_depth
    obtain ⟨hr, hlast, hdid⟩ := cx.run_confined (enter_confined levels) (cx.bodyOf entry.function entry.target) hf
      hcounted.deeper
    simp only [enter, transcript, hcounted.depth_eq, hs.nesting]
    split
    · exact ⟨rfl, rfl, hs⟩
    · exact ⟨hr, hdid, hlast.shallower⟩

theorem invoke_confined (hs : s.SameAbove low low' s') (g : Function β σ) (args : Array Word) :
    SameCourse low low' (cx.invoke g args s) (cx.invoke g args s')
      (Entry.transcript (cx.transcript cx.maxDepth) (Entry.fromOutside cx.convention g args s))
      (Entry.transcript (cx.transcript cx.maxDepth) (Entry.fromOutside cx.convention g args s')) := by
  have hplaced := hs.fromOutside cx.convention g args
  unfold invoke
  generalize Entry.fromOutside cx.convention g args s = placing at hplaced ⊢
  generalize Entry.fromOutside cx.convention g args s' = placing' at hplaced ⊢
  cases hplaced with
  | refused e hs => exact ⟨rfl, rfl, hs⟩
  | placed ht hentry => exact (cx.enter_confined cx.maxDepth).leave ht hentry

end Context

end

/-- **A callee neither learns of nor depends on its caller's words.**  Take two states that are the same but for words
at the bottom of their stacks, in which no argument of the call is.  However the callee is called, it performs the same
operations in both with the same answers, at every nesting level, and comes to the same word or error; the states it
leaves are the same, counters and all, but for the same words at the bottom of each stack.  Its body may ask all there
is to ask, how deep the stack is and what its frame looks like among them. -/
theorem Context.callee_isolated (cx : Context β σ) (levels : Nat) {low low' : List Word} {s s' : CallState σ}
    (hs : s.SameAbove low low' s') :
    (∀ (f : Frame β σ) (index : Nat),
      (∀ callee, cx.module.function? index = some callee → callee.arity ≤ f.available s.stack →
        low.length ≤ s.stack.depth - callee.arity) →
      SameCourse low low' (f.call cx (cx.enter levels) index s) (f.call cx (cx.enter levels) index s')
        (cx.within (cx.transcript levels) (.call index) f s) (cx.within (cx.transcript levels) (.call index) f s')) ∧
    (∀ (f : Frame β σ) (index : Nat) (args : Array Word),
      SameCourse low low' (Frame.callWith cx (cx.enter levels) index args s)
        (Frame.callWith cx (cx.enter levels) index args s')
        (cx.within (cx.transcript levels) (.callWith index args) f s)
        (cx.within (cx.transcript levels) (.callWith index args) f s')) ∧
    (∀ (g : Function β σ) (args : Array Word),
      SameCourse low low' (cx.invoke g args s) (cx.invoke g args s')
        (Entry.transcript (cx.transcript cx.maxDepth) (Entry.fromOutside cx.convention g args s))
        (Entry.transcript (cx.transcript cx.maxDepth) (Entry.fromOutside cx.convention g args s'))) := by
  have hconfined := cx.enter_confined levels
  refine ⟨?_, ?_, ?_⟩
  · intro f index hslot
    exact hconfined.call cx hs hslot
  · intro f index args
    exact hconfined.callWith cx hs f index args
  · intro g args
    exact cx.invoke_confined hs g args

/-- The function that takes differences by calls, called on two stacks that differ below its argument. -/
theorem Context.callee_isolated_differences :
    ∃ (cx : Context (Body Unit) Unit) (f : Frame (Body Unit) Unit) (s s' : CallState Unit),
      s.stack.words = [1, 2, 9] ∧ s'.stack.words = [7, 8, 9] ∧
      SameCourse [1, 2] [7, 8] (f.call cx (cx.enter 3) 1 s) (f.call cx (cx.enter 3) 1 s')
        (cx.within (cx.transcript 3) (.call 1) f s) (cx.within (cx.transcript 3) (.call 1) f s') ∧
      (f.call cx (cx.enter 3) 1 s).2.stack.words = [1, 2, 6] ∧
      (f.call cx (cx.enter 3) 1 s').2.stack.words = [7, 8, 6] := by
  have hs : CallState.SameAbove [1, 2] [7, 8] (⟨⟨#[1, 2, 9], 16, by decide⟩, .zero, #[], (), 0⟩ : CallState Unit)
      ⟨⟨#[7, 8, 9], 16, by decide⟩, .zero, #[], (), 0⟩ :=
    ⟨⟨⟨[9], rfl, rfl⟩, rfl, rfl⟩, rfl, rfl, rfl, rfl⟩
  obtain ⟨hcall, -, -⟩ := callee_isolated ((Machine.ofPrograms .operandStack 16 samplePrograms (· == 0)).context
    (.ofPrograms "programs" samplePrograms (· == 0))) 3 hs
  refine ⟨_, ⟨⟨⟨"main", 0, 0⟩, none, none⟩, .stack 0, #[], 0⟩, _, _, rfl, rfl, hcall _ 1 ?_, ?_, ?_⟩
  · intro callee hcallee _
    obtain rfl := Option.some.inj hcallee
    exact Nat.le_refl 2
  · decide +kernel
  · decide +kernel

end MixedMode
