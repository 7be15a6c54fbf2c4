import MixedMode.Json.Reader
import MixedMode.Proofs.Characters
/-!
# Reading — the text of a value, with any white space between its tokens

The lexer finds the tokens of every text that spells them (`lex?_of_spelled`): one after the other, white space before
any of them, and something that is no part of a number after each number.  The reader finds the value of its own tokens
(`ofTokens?_tokens`).  So a value whose numbers and texts are sound is read back from any text that spells its tokens,
and its compact text does (`parse?_compact`).
-/
namespace MixedMode.Json

/-! ## Texts that spell tokens -/

/-- A number, with a sign or without. -/
def IsNumber (lexeme : List Char) : Prop :=
  ∃ digits stage, (lexeme = digits ∨ lexeme = '-' :: digits) ∧ digits.foldlM NumberStage.next? .minus = some stage ∧
    stage.complete = true

/-- The character is no part of a number that could end before it. -/
def endsNumber (c : Char) : Bool := !(c.isDigit || c = '.' || c = 'e' || c = 'E')

namespace Token

/-- The lexer can find the token. -/
def Sound : Token → Prop
  | number lexeme => IsNumber lexeme
  | text raw      => Text.Whole raw
  | _             => True

def isNumber : Token → Bool
  | number _ => true
  | _        => false

end Token

/-- The text spells these tokens. -/
inductive Spelled : List Token → List Char → Prop
  | nil : Spelled [] []
  | space {tokens : List Token} {text : List Char} {c : Char} (hc : isSpace c = true) (h : Spelled tokens text) :
      Spelled tokens (c :: text)
  | token {token : Token} {tokens : List Token} {text : List Char} (hsound : token.Sound)
      (hends : token.isNumber = true → ∀ c ∈ text.head?, endsNumber c = true) (h : Spelled tokens text) :
      Spelled (token :: tokens) (token.chars ++ text)

namespace Lexer

/-- The tokens that are found when the lexer goes on with this text. -/
def run (l : Lexer) (text : List Char) : Option (List Token) := (text.foldlM step l).bind finish

theorem run_cons (l : Lexer) (c : Char) (text : List Char) : l.run (c :: text) = (l.step c).bind (·.run text) := by
  rw [run, List.foldlM_cons]
  cases l.step c <;> rfl

/-! ## Numbers -/

theorem next?_of_endsNumber {stage : NumberStage} (hstage : stage.complete = true) {c : Char}
    (hc : endsNumber c = true) : stage.next? c = none := by
  simp only [endsNumber, Bool.not_eq_true', Bool.or_eq_false_iff, decide_eq_false_iff_not] at hc
  obtain ⟨⟨⟨hdigit, hpoint⟩, he⟩, hE⟩ := hc
  cases stage with
  | minus | point | mark | sign => cases hstage
  | zero | whole | fraction | power => simp [NumberStage.next?, hdigit, hpoint, he, hE]

/-- A number that may end does so before a text that is no part of it. -/
theorem run_number {stage : NumberStage} (hstage : stage.complete = true) {text : List Char}
    (hends : ∀ c ∈ text.head?, endsNumber c = true) (lexeme : List Char) (done : List Token) :
    run ⟨.number stage lexeme, done⟩ text = run ⟨.between, .number lexeme.reverse :: done⟩ text := by
  cases text with
  | nil => simp [run, finish, hstage]
  | cons c text =>
    have hnext := next?_of_endsNumber hstage (hends c rfl)
    rw [run_cons, run_cons]
    simp [step, hnext, hstage]

theorem run_digits : ∀ (digits : List Char) {stage stage' : NumberStage} (lexeme rest : List Char) (done : List Token),
    digits.foldlM NumberStage.next? stage = some stage' →
    run ⟨.number stage lexeme, done⟩ (digits ++ rest) = run ⟨.number stage' (digits.reverse ++ lexeme), done⟩ rest
  | [], stage, stage', lexeme, rest, done, h => by
    obtain rfl := Option.some.inj h
    rfl
  | c :: digits, stage, stage', lexeme, rest, done, h => by
    rw [List.foldlM_cons] at h
    obtain ⟨next, hnext, hgoes⟩ := Option.bind_eq_some_iff.1 h
    rw [List.cons_append, run_cons, step, hnext, List.reverse_cons, List.append_assoc]
    exact run_digits digits (c :: lexeme) rest done hgoes

/-- A digit begins a number. -/
theorem start_of_next? {c : Char} {stage : NumberStage} (h : NumberStage.next? .minus c = some stage)
    (done : List Token) : start done c = some ⟨.number stage [c], done⟩ := by
  rw [NumberStage.next?] at h
  by_cases hzero : c = '0'
  · subst hzero
    cases h
    rfl
  · rw [if_neg hzero] at h
    by_cases hdigit : c.isDigit = true
    · rw [if_pos hdigit] at h
      have hne : ∀ d : Char, d.isDigit = false → c ≠ d := by
        rintro d hd rfl
        rw [hd] at hdigit
        cases hdigit
      obtain rfl := Option.some.inj h
      simp [start, isSpace, hne, hzero, hdigit]
    · rw [if_neg hdigit] at h
      cases h

/-! ## Tokens -/

theorem run_text : ∀ (raw : List Char) {stage stage' : TextStage} (before rest : List Char) (done : List Token),
    raw.foldlM TextStage.step? stage = some stage' →
    run ⟨.text stage before, done⟩ (raw ++ rest) = run ⟨.text stage' (raw.reverse ++ before), done⟩ rest
  | [], stage, stage', before, rest, done, h => by
    obtain rfl := Option.some.inj h
    rfl
  | c :: raw, stage, stage', before, rest, done, h => by
    rw [List.foldlM_cons] at h
    obtain ⟨next, hnext, hgoes⟩ := Option.bind_eq_some_iff.1 h
    unfold TextStage.step? at hnext
    by_cases hcloses : (c = '"' && stage = .plain) = true
    · rw [if_pos hcloses] at hnext
      cases hnext
    · rw [if_neg hcloses] at hnext
      rw [List.cons_append, run_cons, step, if_neg hcloses, hnext, List.reverse_cons, List.append_assoc]
      exact run_text raw (c :: before) rest done hgoes

/-- **The lexer finds a sound token** and goes on after it. -/
theorem run_token {token : Token} (hsound : token.Sound) {text : List Char}
    (hends : token.isNumber = true → ∀ c ∈ text.head?, endsNumber c = true) (done : List Token) :
    run ⟨.between, done⟩ (token.chars ++ text) = run ⟨.between, token :: done⟩ text := by
  cases token with
  | number lexeme =>
    obtain ⟨digits, stage, hlexeme, hdigits, hstage⟩ := hsound
    cases digits with
    | nil =>
      obtain rfl := Option.some.inj hdigits
      cases hstage
    | cons c digits =>
      rw [List.foldlM_cons] at hdigits
      obtain ⟨next, hnext, hrest⟩ := Option.bind_eq_some_iff.1 hdigits
      rcases hlexeme with rfl | rfl
      · show run ⟨.between, done⟩ (c :: (digits ++ text)) = _
        rw [run_cons, step, start_of_next? hnext]
        show run ⟨.number next [c], done⟩ (digits ++ text) = _
        rw [run_digits digits [c] text done hrest, run_number hstage (hends rfl)]
        simp
      · show run ⟨.number .minus ['-'], done⟩ (c :: (digits ++ text)) = _
        rw [run_cons, step, hnext]
        show run ⟨.number next [c, '-'], done⟩ (digits ++ text) = _
        rw [run_digits digits [c, '-'] text done hrest, run_number hstage (hends rfl)]
        simp
  | text raw =>
    show run ⟨.text .plain [], done⟩ (raw ++ ['"'] ++ text) = _
    rw [List.append_assoc, run_text raw [] (['"'] ++ text) done hsound]
    show run ⟨.between, .text (raw.reverse ++ []).reverse :: done⟩ text = _
    rw [List.append_nil, List.reverse_reverse]
  | bool b => cases b <;> rfl
  | _ => rfl

theorem run_of_spelled {tokens : List Token} {text : List Char} (h : Spelled tokens text) (done : List Token) :
    run ⟨.between, done⟩ text = some (done.reverse ++ tokens) := by
  induction h generalizing done with
  | nil => simp [run, finish]
  | @space tokens text c hc _ ih =>
    have hstart : start done c = some ⟨.between, done⟩ := by rw [start, if_pos hc]
    rw [run_cons, step, hstart]
    exact ih done
  | token hsound hends _ ih =>
    rw [run_token hsound hends, ih]
    simp

end Lexer

/-- **The lexer finds the tokens that a text spells.** -/
theorem lex?_of_spelled {tokens : List Token} {text : List Char} (h : Spelled tokens text) :
    lex? text = some tokens := Lexer.run_of_spelled h []

/-! ## Values -/

namespace Reader

def run (r : Reader) (tokens : List Token) : Option Reader := tokens.foldlM step r

theorem run_append (r : Reader) (tokens more : List Token) :
    r.run (tokens ++ more) = (r.run tokens).bind (·.run more) := List.foldlM_append

theorem run_cons (r : Reader) (token : Token) (tokens : List Token) :
    r.run (token :: tokens) = (r.step token).bind (·.run tokens) := List.foldlM_cons

mutual

/-- **The reader finds a value in its tokens**, whatever containers are open around it. -/
theorem run_tokens : ∀ (v : Json) (first : Bool) (outer : List Outer),
    run (.value first outer) v.tokens = some (place v outer)
  | .null, _, _     => rfl
  | .bool _, _, _   => rfl
  | .number _, _, _ => rfl
  | .text _, _, _   => rfl
  | .array [], _, _ => rfl
  | .array (v :: vs), first, outer => by
    rw [tokens, List.cons_append, run_cons]
    show run (.value true (.array [] :: outer)) _ = _
    rw [run_append, run_items (v :: vs) (by simp) true [] outer]
    show some (place (.array (((v :: vs).reverse ++ []).reverse)) outer) = _
    rw [List.append_nil, List.reverse_reverse]
  | .object [], _, _ => rfl
  | .object (m :: ms), first, outer => by
    rw [tokens, List.cons_append, run_cons]
    show run (.key true [] outer) _ = _
    rw [run_append, run_members (m :: ms) (by simp) true [] outer]
    show some (place (.object (((m :: ms).reverse ++ []).reverse)) outer) = _
    rw [List.append_nil, List.reverse_reverse]

theorem run_items : ∀ (vs : List Json), vs ≠ [] → ∀ (first : Bool) (items : List Json) (outer : List Outer),
    run (.value first (.array items :: outer)) (itemTokens vs) = some (.afterItem (vs.reverse ++ items) outer)
  | [], hne, _, _, _ => absurd rfl hne
  | [v], _, first, items, outer => run_tokens v first (.array items :: outer)
  | v :: w :: vs, _, first, items, outer => by
    rw [itemTokens, run_append, run_tokens v first (.array items :: outer)]
    show run (.value false (.array (v :: items) :: outer)) (itemTokens (w :: vs)) = _
    rw [run_items (w :: vs) (by simp) false (v :: items) outer]
    simp

theorem run_members : ∀ (ms : List (List Char × Json)), ms ≠ [] → ∀ (first : Bool)
    (members : List (List Char × Json)) (outer : List Outer),
    run (.key first members outer) (memberTokens ms) = some (.afterMember (ms.reverse ++ members) outer)
  | [], hne, _, _, _ => absurd rfl hne
  | [(k, v)], _, first, members, outer => run_tokens v false (.object members k :: outer)
  | (k, v) :: m :: ms, _, first, members, outer => by
    rw [memberTokens]
    show run (.value false (.object members k :: outer)) (v.tokens ++ .comma :: memberTokens (m :: ms)) = _
    rw [run_append, run_tokens v false (.object members k :: outer)]
    show run (.key false ((k, v) :: members) outer) (memberTokens (m :: ms)) = _
    rw [run_members (m :: ms) (by simp) false ((k, v) :: members) outer]
    simp

end

end Reader

/-- **A value is read from its tokens.** -/
theorem ofTokens?_tokens (v : Json) : ofTokens? v.tokens = some v := by
  show (Reader.run (.value false []) v.tokens).bind Reader.finish = _
  rw [Reader.run_tokens v false []]
  rfl

/-- A value that is read from its text: all its numbers are numbers, and its texts are whole. -/
def Sound (v : Json) : Prop := ∀ token ∈ v.tokens, token.Sound

/-- **A sound value is read from every text that spells its tokens.** -/
theorem parse?_of_spelled {v : Json} {text : String} (h : Spelled v.tokens text.toList) : parse? text = some v := by
  rw [parse?, lex?_of_spelled h]
  exact ofTokens?_tokens v

/-! ## The compact text -/

theorem endsNumber_chars {token : Token} (htoken : token.isNumber = false) (rest : List Char) :
    ∀ c ∈ (token.chars ++ rest).head?, endsNumber c = true := by
  intro c hc
  cases token with
  | number lexeme => cases htoken
  | bool b => cases b <;> (cases hc; decide)
  | _ => cases hc; decide

/-- The tokens one after the other spell themselves, before a text that is no part of a number. -/
def Spells (tokens : List Token) : Prop :=
  ∀ (rest : List Token) (text : List Char), Spelled rest text → (∀ c ∈ text.head?, endsNumber c = true) →
    Spelled (tokens ++ rest) (tokens.flatMap Token.chars ++ text)

namespace Spells

variable {token : Token} {tokens more : List Token}

theorem single (hsound : token.Sound) : Spells [token] := by
  intro rest text h hends
  rw [List.flatMap_singleton]
  exact .token hsound (fun _ => hends) h

theorem append (h : Spells tokens) (hmore : Spells (token :: more)) (htoken : token.isNumber = false) :
    Spells (tokens ++ token :: more) := by
  intro rest text hrest hends
  rw [List.append_assoc, List.flatMap_append, List.append_assoc]
  refine h _ _ (hmore rest text hrest hends) ?_
  rw [List.flatMap_cons, List.append_assoc]
  exact endsNumber_chars htoken _

theorem cons (hsound : token.Sound) (htoken : token.isNumber = false) (h : Spells tokens) :
    Spells (token :: tokens) := by
  intro rest text hrest hends
  rw [List.flatMap_cons, List.append_assoc]
  exact .token hsound (fun hnumber => by rw [htoken] at hnumber; cases hnumber) (h rest text hrest hends)

end Spells

mutual

theorem spells_tokens : ∀ v : Json, v.Sound → Spells v.tokens
  | .null, _          => .single trivial
  | .bool _, _        => .single trivial
  | .number _, h      => .single (h _ (List.mem_singleton_self _))
  | .text _, h        => .single (h _ (List.mem_singleton_self _))
  | .array items, h   => by
    rw [tokens, List.cons_append]
    refine .cons trivial rfl (.append (spells_items items fun token hmem => h token ?_) (.single trivial) rfl)
    simp [tokens, hmem]
  | .object members, h => by
    rw [tokens, List.cons_append]
    refine .cons trivial rfl (.append (spells_members members fun token hmem => h token ?_) (.single trivial) rfl)
    simp [tokens, hmem]

theorem spells_items : ∀ vs : List Json, (∀ token ∈ itemTokens vs, token.Sound) → Spells (itemTokens vs)
  | [], _ => fun _ _ h _ => h
  | [v], h => spells_tokens v h
  | v :: w :: vs, h => by
    rw [itemTokens] at h ⊢
    obtain ⟨hv, hvs⟩ := List.forall_mem_append.1 h
    -- `v` may be a number, but a comma comes after it
    exact .append (spells_tokens v hv) (.cons trivial rfl (spells_items (w :: vs) (List.forall_mem_cons.1 hvs).2)) rfl

theorem spells_members : ∀ ms : List (List Char × Json), (∀ token ∈ memberTokens ms, token.Sound) →
    Spells (memberTokens ms)
  | [], _ => fun _ _ h _ => h
  | [(k, v)], h => by
    rw [memberTokens] at h ⊢
    obtain ⟨hk, h⟩ := List.forall_mem_cons.1 h
    exact .cons hk rfl (.cons trivial rfl (spells_tokens v (List.forall_mem_cons.1 h).2))
  | (k, v) :: m :: ms, h => by
    rw [memberTokens] at h ⊢
    obtain ⟨hk, h⟩ := List.forall_mem_cons.1 h
    obtain ⟨-, h⟩ := List.forall_mem_cons.1 h
    obtain ⟨hv, hms⟩ := List.forall_mem_append.1 h
    have hrest := spells_members (m :: ms) (List.forall_mem_cons.1 hms).2
    exact .cons hk rfl (.cons trivial rfl (.append (spells_tokens v hv) (.cons trivial rfl hrest) rfl))

end

/-- **The compact text of a sound value spells it.** -/
theorem spelled_compact {v : Json} (h : v.Sound) : Spelled v.tokens v.compact.toList := by
  have hspelled := spells_tokens v h [] [] .nil fun c hc => by cases hc
  rw [List.append_nil, List.append_nil] at hspelled
  rw [compact, String.toList_ofList]
  exact hspelled

theorem parse?_compact {v : Json} (h : v.Sound) : parse? v.compact = some v := parse?_of_spelled (spelled_compact h)

end MixedMode.Json
