import MixedMode.Json.Text
/-!
# Characters — what is written between the quotes of a text

Each character that is written comes back as one piece, which stands for it whatever pieces come after
(`Text.exists_piece`); so a text that is written is read back (`Text.decode?_encode`).  The lexer goes through all that
is written before the closing quote and takes none of it for that (`Text.whole_encode`).
-/
namespace MixedMode.Json

/-- The stage after one more character of a text, unless that closes it. -/
def TextStage.step? (stage : TextStage) (c : Char) : Option TextStage :=
  if c = '"' && stage = .plain then none else stage.next? c

namespace Text

/-- The lexer goes through these characters of a text, and every escape among them is complete. -/
def Whole (raw : List Char) : Prop := raw.foldlM TextStage.step? .plain = some .plain

theorem Whole.append {raw rest : List Char} (h : Whole raw) (hrest : Whole rest) : Whole (raw ++ rest) := by
  unfold Whole at *
  rw [List.foldlM_append, h]
  exact hrest

/-! ## Escapes -/

theorem whole_digits : ∀ n < 0x20, Whole ['\\', 'u', '0', '0', hexDigit (n / 16), hexDigit (n % 16)] := by
  unfold Whole
  decide

theorem isHexDigit_digits : ∀ n < 0x20, ['0', '0', hexDigit (n / 16), hexDigit (n % 16)].all isHexDigit = true := by
  decide

theorem value_digits : ∀ n < 0x20,
    ['0', '0', hexDigit (n / 16), hexDigit (n % 16)].foldl (fun n h => 16 * n + hexValue h) 0 = n := by
  decide

theorem pieces?_escape {e c : Char} (he : e ≠ 'u') (hc : unescape e = some c) (rest : List Char) :
    pieces? ('\\' :: e :: rest) = (pieces? rest).map (.char c :: ·) := by
  simp only [pieces?, he, false_implies, implies_true, hc]
  cases pieces? rest <;> rfl

theorem pieces?_plain {c : Char} (hc : c ≠ '\\') (rest : List Char) :
    pieces? (c :: rest) = (pieces? rest).map (.char c :: ·) := by
  simp [pieces?, hc]

theorem pieces?_digits {n : Nat} (hn : n < 0x20) (rest : List Char) :
    pieces? ('\\' :: 'u' :: '0' :: '0' :: hexDigit (n / 16) :: hexDigit (n % 16) :: rest) =
      (pieces? rest).map (.unit n :: ·) := by
  rw [pieces?, if_pos (isHexDigit_digits n hn), value_digits n hn]

/-! ## Pieces -/

/-- The piece stands for the character, whatever pieces come after it. -/
def Piece.Stands (p : Piece) (c : Char) : Prop := ∀ ps, join? (p :: ps) = (join? ps).map (c :: ·)

theorem Piece.stands_char (c : Char) : (Piece.char c).Stands c := fun ps => by rw [join?]

theorem Piece.stands_unit {n : Nat} (hn : n < 0xD800) : (Piece.unit n).Stands (Char.ofNat n) := by
  have hhigh : isHighSurrogate n = false := by
    simp only [isHighSurrogate, Bool.and_eq_false_iff, decide_eq_false_iff_not]
    omega
  have hlow : isLowSurrogate n = false := by
    simp only [isLowSurrogate, Bool.and_eq_false_iff, decide_eq_false_iff_not]
    omega
  intro ps
  cases ps with
  | nil => simp [join?, hhigh, hlow]
  | cons p ps => cases p <;> simp [join?, hhigh, hlow]

/-- **What is written of a character is whole, and one piece that stands for it.** -/
theorem encodeChar_spec (c : Char) : Whole (encodeChar c) ∧
    ∃ p : Piece, p.Stands c ∧ ∀ rest, pieces? (encodeChar c ++ rest) = (pieces? rest).map (p :: ·) := by
  unfold encodeChar
  split
  · next h =>
    subst h
    exact ⟨rfl, _, Piece.stands_char '"', pieces?_escape (by decide) rfl⟩
  split
  · next h =>
    subst h
    exact ⟨rfl, _, Piece.stands_char '\\', pieces?_escape (by decide) rfl⟩
  split
  · next h =>
    subst h
    exact ⟨rfl, _, Piece.stands_char '\n', pieces?_escape (by decide) rfl⟩
  split
  · next h =>
    subst h
    exact ⟨rfl, _, Piece.stands_char '\r', pieces?_escape (by decide) rfl⟩
  split
  · next h =>
    subst h
    exact ⟨rfl, _, Piece.stands_char '\t', pieces?_escape (by decide) rfl⟩
  split
  · next h =>
    obtain rfl : c = '\x08' := Char.toNat_inj.1 h
    exact ⟨rfl, _, Piece.stands_char '\x08', pieces?_escape (by decide) rfl⟩
  split
  · next h =>
    obtain rfl : c = '\x0c' := Char.toNat_inj.1 h
    exact ⟨rfl, _, Piece.stands_char '\x0c', pieces?_escape (by decide) rfl⟩
  split
  -- by its number: one unit, too small for a surrogate
  · next h =>
    have hstands : (Piece.unit c.toNat).Stands (Char.ofNat c.toNat) := Piece.stands_unit (by omega)
    rw [Char.ofNat_toNat] at hstands
    exact ⟨whole_digits _ h, _, hstands, pieces?_digits h⟩
  · next hquote hslash _ _ _ _ _ hcontrol =>
    exact ⟨by simp [Whole, TextStage.step?, TextStage.next?, hquote, hslash, hcontrol], _, Piece.stands_char c,
      pieces?_plain hslash⟩

/-! ## Texts -/

/-- **The lexer goes through a text that is written.** -/
theorem whole_encode : ∀ cs : List Char, Whole (encode cs)
  | []      => rfl
  | c :: cs => (encodeChar_spec c).1.append (whole_encode cs)

/-- **A text that is written is read back.** -/
theorem decode?_encode (cs : List Char) : decode? (encode cs) = some cs := by
  suffices hpieces : ∃ ps, pieces? (encode cs) = some ps ∧ join? ps = some cs by
    obtain ⟨ps, hps, hjoin⟩ := hpieces
    rw [decode?, hps]
    exact hjoin
  induction cs with
  | nil => exact ⟨[], rfl, rfl⟩
  | cons c cs ih =>
    obtain ⟨ps, hps, hjoin⟩ := ih
    obtain ⟨p, hstands, hpiece⟩ := (encodeChar_spec c).2
    refine ⟨p :: ps, ?_, ?_⟩
    · rw [encode, List.flatMap_cons, hpiece]
      exact congrArg (Option.map _) hps
    · rw [hstands, hjoin]
      rfl

end Text
end MixedMode.Json
