import MixedMode.Proofs.Reached
import MixedMode.Proofs.StackEffect
/-!
# Iterations — the invocations of a run, one after the other

A run invokes its function as often as the loop count says, each time on the state that the invocation before left.
`Iterated` holds of invocations in a row that have all returned.  From there a run goes on with the invocations that are
left (`Iterated.iterate_eq`), so it ends with the first invocation that fails or with the last one
(`Machine.exists_iterated`).  No invocation changes the operand stack or moves the nesting counter, so each begins where
the first one did, and no run changes the stack (`Machine.runWith_machine`).
-/
namespace MixedMode

variable {β σ : Type}

/-- **An invocation leaves the stack as it was**, whatever its outcome. -/
theorem Context.stack_invoke (cx : Context β σ) (f : Function β σ) (args : Array Word) (s : CallState σ) :
    (cx.invoke f args s).2.stack = s.stack := by
  rcases Entry.placed_fromOutside cx.convention f args s with ⟨entry, s', he, hp, -⟩ | ⟨he, -⟩
  · obtain ⟨-, hwords, hlimit⟩ := (cx.enter_keeps cx.maxDepth).leave_placed hp
    rw [invoke, he]
    exact OperandStack.ext_words hwords hlimit
  · rw [invoke, he]

namespace Machine

variable {cx : Context β σ} {f : Function β σ} {args : Array Word}

/-- Invocations in a row, each on the state that the one before left, have returned these words, the latest first. -/
inductive Iterated (cx : Context β σ) (f : Function β σ) (args : Array Word) (start : CallState σ) :
    List Word → CallState σ → Prop
  | none : Iterated cx f args start [] start
  | next {words : List Word} {s s' : CallState σ} {w : Word} (before : Iterated cx f args start words s)
      (hinvoke : cx.invoke f args s = (.ok w, s')) :
      Iterated cx f args start (w :: words) { s' with events := s'.events.push (.iterated words.length w) }

namespace Iterated

variable {start s : CallState σ} {words : List Word}

/-- **A run goes on with the invocations that are left.** -/
theorem iterate_eq (h : Iterated cx f args start words s) (last : Word) : ∀ more : Nat,
    iterate cx f args (words.length + more) 0 last start =
      iterate cx f args more words.length (words.headD last) s := by
  induction h with
  | none =>
    intro more
    rw [List.length_nil, Nat.zero_add]
    rfl
  | @next words s s' w before hinvoke ih =>
    intro more
    rw [List.length_cons, Nat.add_assoc, Nat.add_comm 1, ih (more + 1), iterate, hinvoke]
    rfl

/-- **A run ends with the first invocation that fails.** -/
theorem iterate_of_error (h : Iterated cx f args start words s) (last : Word) {n : Nat} (hlength : words.length < n)
    {e : RuntimeError} {s' : CallState σ} (hfailed : cx.invoke f args s = (.error e, s')) :
    iterate cx f args n 0 last start = (.error e, s') := by
  obtain ⟨more, rfl⟩ := Nat.exists_eq_add_of_lt hlength
  rw [Nat.add_assoc, h.iterate_eq last (more + 1), iterate, hfailed]

/-- **A run of which every invocation returns ends with the last of them.** -/
theorem iterate_of_length (h : Iterated cx f args start words s) (last : Word) :
    iterate cx f args words.length 0 last start = (.ok (words.headD last), s) := by
  have hall := h.iterate_eq last 0
  rw [Nat.add_zero] at hall
  rw [hall]
  rfl

/-- Every invocation finds the stack as the first one found it. -/
theorem stack_eq (h : Iterated cx f args start words s) : s.stack = start.stack := by
  induction h with
  | none => rfl
  | @next words s s' w before hinvoke ih =>
    have hstack := cx.stack_invoke f args s
    rw [hinvoke] at hstack
    exact hstack.trans ih

/-- Every invocation finds the nesting counter as the first one found it. -/
theorem nesting_eq (h : Iterated cx f args start words s) : s.nesting = start.nesting := by
  induction h with
  | none => rfl
  | @next words s s' w before hinvoke ih =>
    have hnesting := cx.nesting_invoke f args s
    rw [hinvoke] at hnesting
    exact hnesting.trans ih

end Iterated

/-- So many invocations return, or there is a first one that fails. -/
theorem exists_iterated (cx : Context β σ) (f : Function β σ) (args : Array Word) (start : CallState σ) : ∀ n : Nat,
    (∃ words s, words.length = n ∧ Iterated cx f args start words s) ∨
    (∃ words s e s', words.length < n ∧ Iterated cx f args start words s ∧ cx.invoke f args s = (.error e, s'))
  | 0     => .inl ⟨[], start, rfl, .none⟩
  | n + 1 => by
    rcases exists_iterated cx f args start n with ⟨words, s, hlength, h⟩ | ⟨words, s, e, s', hlt, h, hfail⟩
    · cases hinvoke : cx.invoke f args s with
      | mk r s' =>
        cases r with
        | error e => exact .inr ⟨words, s, e, s', by omega, h, hinvoke⟩
        | ok w => exact .inl ⟨w :: words, _, by rw [List.length_cons, hlength], h.next hinvoke⟩
    · exact .inr ⟨words, s, e, s', Nat.lt_succ_of_lt hlt, h, hfail⟩

theorem stack_iterate (cx : Context β σ) (f : Function β σ) (args : Array Word) (n : Nat) (last : Word)
    (start : CallState σ) : (iterate cx f args n 0 last start).2.stack = start.stack := by
  rcases exists_iterated cx f args start n with ⟨words, s, rfl, h⟩ | ⟨words, s, e, s', hlt, h, hfailed⟩
  · rw [h.iterate_of_length last]
    exact h.stack_eq
  · have hstack := cx.stack_invoke f args s
    rw [hfailed] at hstack
    rw [h.iterate_of_error last hlt hfailed]
    exact hstack.trans h.stack_eq

/-- **A run changes nothing of the machine but its counters.** -/
theorem runWith_machine (m : Machine β σ) (index : Nat) (args : Array Word) (w : World σ) :
    (m.runWith index args w).2.1 = { m with stats := (m.runWith index args w).2.1.stats } := by
  cases hr : m.runnable index args.size with
  | error e => rw [runWith, hr]
  | ok mf =>
    obtain ⟨module, f⟩ := mf
    rw [runWith_of_runnable hr, outcome_machine, stack_iterate]
    rfl

end Machine
end MixedMode
