/-!
# Decoding — octets read as text

Octets are read as UTF-8, one at a time, with what they have begun of a character as the state (`Utf8.step`).  Where
the next octet cannot go on with it, U+FFFD stands for all that was begun, and the octet is read afresh.  The octets of
a text are read back as the text (`Utf8.decode_encode`).
-/
namespace MixedMode.Utf8

/-- What stands for octets that are no text. -/
def replacement : Char := '\ufffd'

theorem toNat_char {n : Nat} (h : n.isValidChar) : (Char.ofNat n).toNat = n := by
  rw [Char.ofNat, dif_pos h]
  rfl

/-- The number that an octet after the first makes with those before it. -/
def extend (value : Nat) (b : UInt8) : Nat := value * 64 + (b.toNat - 0x80)

theorem extend_eq (value : Nat) (b : UInt8) : extend value b = value * 64 + (b.toNat - 0x80) := by
  unfold extend
  rfl

/-- How many numbers that many more octets can make of one. -/
def spread : Nat → Nat
  | 0           => 1
  | missing + 1 => spread missing * 64

/-- A character of which at least one octet is there: how many are missing after the next, the number that those there
have made, and the least and the greatest that the next may be. -/
structure Begun where
  missing : Nat
  value : Nat
  least : Nat
  greatest : Nat
  least_ge : 0x80 ≤ least
  /-- Whatever follows makes the number of a character, and of one that takes more than one octet. -/
  sound : ∀ n, (value * 64 + (least - 0x80)) * spread missing ≤ n →
    n < (value * 64 + (greatest - 0x80) + 1) * spread missing → 0x80 ≤ n ∧ n.isValidChar

/-- The character that an octet begins when it is none itself.  Some next octets are left out where the number would
have more octets than it needs, or would be that of a surrogate or past the last character. -/
def first? (b : Nat) : Option Begun :=
  if h : 0xC2 ≤ b ∧ b ≤ 0xDF then
    some ⟨0, b - 0xC0, 0x80, 0xBF, by omega, by grind [spread]⟩
  else if h : 0xE0 ≤ b ∧ b ≤ 0xEF then
    some ⟨1, b - 0xE0, if b = 0xE0 then 0xA0 else 0x80, if b = 0xED then 0x9F else 0xBF, by grind, by grind [spread]⟩
  else if h : 0xF0 ≤ b ∧ b ≤ 0xF4 then
    some ⟨2, b - 0xF0, if b = 0xF0 then 0x90 else 0x80, if b = 0xF4 then 0x8F else 0xBF, by grind, by grind [spread]⟩
  else none

namespace Begun

/-- The octet goes on with what was begun. -/
def Fits (p : Begun) (b : UInt8) : Prop := p.least ≤ b.toNat ∧ b.toNat ≤ p.greatest

instance (p : Begun) (b : UInt8) : Decidable (p.Fits b) := inferInstanceAs (Decidable (_ ∧ _))

/-- One octet more narrows what the number can be. -/
theorem bounds_extend {p : Begun} {b : UInt8} (h : p.Fits b) :
    (p.value * 64 + (p.least - 0x80)) * 64 ≤ extend p.value b * 64 + (0x80 - 0x80) ∧
    extend p.value b * 64 + (0xBF - 0x80) + 1 ≤ (p.value * 64 + (p.greatest - 0x80) + 1) * 64 := by
  obtain ⟨hleast, hgreatest⟩ := h
  unfold extend
  omega

theorem sound_extend {p : Begun} {b : UInt8} (h : p.Fits b) {missing : Nat} (hm : p.missing = missing + 1) (n : Nat)
    (hle : (extend p.value b * 64 + (0x80 - 0x80)) * spread missing ≤ n)
    (hlt : n < (extend p.value b * 64 + (0xBF - 0x80) + 1) * spread missing) : 0x80 ≤ n ∧ n.isValidChar := by
  have hspread : ∀ k, k * spread p.missing = k * 64 * spread missing := fun k => by
    rw [hm, spread, Nat.mul_comm (spread missing), Nat.mul_assoc]
  obtain ⟨hlow, hhigh⟩ := bounds_extend h
  refine p.sound n ?_ ?_ <;> rw [hspread]
  · exact Nat.le_trans (Nat.mul_le_mul_right _ hlow) hle
  · exact Nat.lt_of_lt_of_le hlt (Nat.mul_le_mul_right _ hhigh)

/-- What an octet that fits comes to: the character, or one more octet of it. -/
def next (p : Begun) (b : UInt8) (h : p.Fits b) : List Char × Option Begun :=
  match hm : p.missing with
  | 0           => ([.ofNat (extend p.value b)], none)
  | missing + 1 => ([], some ⟨missing, extend p.value b, 0x80, 0xBF, by omega, sound_extend h hm⟩)

/-- A character of more than one octet is none of the first 128. -/
theorem toNat_of_mem_next {p : Begun} {b : UInt8} {h : p.Fits b} {c : Char} (hc : c ∈ (p.next b h).1) :
    0x80 ≤ c.toNat := by
  unfold next at hc
  split at hc
  · rename_i hm
    obtain ⟨hleast, hgreatest⟩ := h
    have hle : p.value * 64 + (p.least - 0x80) ≤ extend p.value b := by
      rw [extend_eq]
      omega
    have hlt : extend p.value b < p.value * 64 + (p.greatest - 0x80) + 1 := by
      rw [extend_eq]
      omega
    have hsound := p.sound (extend p.value b)
    rw [hm, spread, Nat.mul_one, Nat.mul_one] at hsound
    obtain ⟨hge, hvalid⟩ := hsound hle hlt
    rw [List.mem_singleton.1 hc, toNat_char hvalid]
    exact hge
  · cases hc

end Begun

/-- The first octet of a character, or one that can be none. -/
def start (b : UInt8) : List Char × Option Begun :=
  if b.toNat < 0x80 then ([.ofNat b.toNat], none)
  else match first? b.toNat with
    | some p => ([], some p)
    | none   => ([replacement], none)

/-- What one octet adds to the text, and what it leaves begun. -/
def step : Option Begun → UInt8 → List Char × Option Begun
  | none, b   => start b
  | some p, b => if h : p.Fits b then p.next b h else (replacement :: (start b).1, (start b).2)

/-- The text of some octets, after what was begun. -/
def decode : Option Begun → List UInt8 → List Char
  | none, []   => []
  | some _, [] => [replacement]
  | s, b :: bs => (step s b).1 ++ decode (step s b).2 bs

/-- The octets of a text. -/
def encode (cs : List Char) : List UInt8 := cs.flatMap String.utf8EncodeChar

theorem decode_cons (s : Option Begun) (b : UInt8) (bs : List UInt8) :
    decode s (b :: bs) = (step s b).1 ++ decode (step s b).2 bs := by
  cases s <;> rfl

/-- The octets that were missing make the character, and what comes after them is read afresh. -/
theorem decode_missing (rest : List UInt8) : ∀ (bs : List UInt8) (p : Begun) (b : UInt8), bs.length = p.missing →
    p.Fits b → (∀ t ∈ bs, 0x80 ≤ t.toNat ∧ t.toNat ≤ 0xBF) →
    decode (some p) (b :: bs ++ rest) = .ofNat (bs.foldl extend (extend p.value b)) :: decode none rest
  | [], p, b, hlen, hb, _ => by
    have hnext : p.next b hb = ([.ofNat (extend p.value b)], none) := by
      unfold Begun.next
      split
      · rfl
      · simp_all
    simp only [List.cons_append, List.nil_append, decode_cons, step, dif_pos hb, hnext, List.foldl_nil]
  | t :: bs, p, b, hlen, hb, hbs => by
    obtain ⟨q, hq, hmissing, hvalue, hleast, hgreatest⟩ : ∃ q : Begun, p.next b hb = ([], some q) ∧
        q.missing = bs.length ∧ q.value = extend p.value b ∧ q.least = 0x80 ∧ q.greatest = 0xBF := by
      unfold Begun.next
      split
      · simp_all
      · exact ⟨_, rfl, by simp_all, rfl, rfl, rfl⟩
    have hfits : q.Fits t := by
      rw [Begun.Fits, hleast, hgreatest]
      exact hbs t List.mem_cons_self
    rw [List.cons_append, decode_cons, step, dif_pos hb, hq, List.nil_append,
      decode_missing rest bs q t hmissing.symm hfits fun u hu => hbs u (List.mem_cons_of_mem _ hu), hvalue,
      List.foldl_cons]

/-- A first octet, a second that it allows and the ones still missing are one character. -/
theorem decode_first (b t : UInt8) (bs rest : List UInt8) {p : Begun} (hfirst : first? b.toNat = some p)
    (hlen : bs.length = p.missing) (ht : p.Fits t) (hbs : ∀ u ∈ bs, 0x80 ≤ u.toNat ∧ u.toNat ≤ 0xBF) {n : Nat}
    (hn : bs.foldl extend (extend p.value t) = n) :
    decode none (b :: t :: bs ++ rest) = .ofNat n :: decode none rest := by
  have hb : ¬ b.toNat < 0x80 := by
    unfold first? at hfirst
    grind
  have hstart : start b = ([], some p) := by rw [start, if_neg hb, hfirst]
  rw [List.cons_append, decode_cons, step, hstart, ← hn]
  exact decode_missing rest bs p t hlen ht hbs

theorem first?_two {b : Nat} (h : 0xC2 ≤ b ∧ b ≤ 0xDF) : ∃ p : Begun, first? b = some p ∧ p.missing = 0 ∧
    p.value = b - 0xC0 ∧ p.least = 0x80 ∧ p.greatest = 0xBF := by
  rw [first?, dif_pos h]
  exact ⟨_, rfl, rfl, rfl, rfl, rfl⟩

theorem first?_three {b : Nat} (h : 0xE0 ≤ b ∧ b ≤ 0xEF) : ∃ p : Begun, first? b = some p ∧ p.missing = 1 ∧
    p.value = b - 0xE0 ∧ p.least = (if b = 0xE0 then 0xA0 else 0x80) ∧
    p.greatest = if b = 0xED then 0x9F else 0xBF := by
  rw [first?, dif_neg (by omega), dif_pos h]
  exact ⟨_, rfl, rfl, rfl, rfl, rfl⟩

theorem first?_four {b : Nat} (h : 0xF0 ≤ b ∧ b ≤ 0xF4) : ∃ p : Begun, first? b = some p ∧ p.missing = 2 ∧
    p.value = b - 0xF0 ∧ p.least = (if b = 0xF0 then 0x90 else 0x80) ∧
    p.greatest = if b = 0xF4 then 0x8F else 0xBF := by
  rw [first?, dif_neg (by omega), dif_neg (by omega), dif_pos h]
  exact ⟨_, rfl, rfl, rfl, rfl, rfl⟩

theorem toNat_ofNat_mod (n d k : Nat) (hd : 0 < d) (h : d + k ≤ 256) : (UInt8.ofNat (n % d + k)).toNat = n % d + k :=
  UInt8.toNat_ofNat_of_lt (Nat.lt_of_lt_of_le (Nat.add_lt_add_right (Nat.mod_lt n hd) k) h)

theorem toNat_ofNat_mod_64 (n : Nat) : (UInt8.ofNat (n % 64 + 128)).toNat = n % 64 + 128 :=
  toNat_ofNat_mod n 64 128 (by decide) (by decide)

theorem tail_bounds (n : Nat) :
    0x80 ≤ (UInt8.ofNat (n % 64 + 128)).toNat ∧ (UInt8.ofNat (n % 64 + 128)).toNat ≤ 0xBF := by
  rw [toNat_ofNat_mod_64]
  omega

/-- The octets of a character are read as the character, whatever comes after them. -/
theorem decode_char (c : Char) (rest : List UInt8) :
    decode none (String.utf8EncodeChar c ++ rest) = c :: decode none rest := by
  have hc : Char.ofNat c.val.toNat = c := Char.ofNat_toNat c
  have hvalid : c.val.toNat.isValidChar := c.valid
  unfold String.utf8EncodeChar
  generalize c.val.toNat = v at hc hvalid
  dsimp only
  split
  · rename_i h
    have hv : (UInt8.ofNat v).toNat = v := UInt8.toNat_ofNat_of_lt' (Nat.lt_of_le_of_lt h (by decide))
    rw [List.cons_append, decode_cons, step, start, hv, if_pos (by omega), hc]
    rfl
  rw [← hc]
  split
  · have hb := toNat_ofNat_mod (v / 64) 32 192 (by decide) (by decide)
    obtain ⟨p, hp, hmissing, hvalue, hleast, hgreatest⟩ := first?_two (b := v / 64 % 32 + 192) (by omega)
    refine decode_first _ _ [] rest (by rw [hb, hp]) hmissing.symm ?_ (List.forall_mem_nil _) ?_
    · rw [Begun.Fits, hleast, hgreatest]
      exact tail_bounds v
    · rw [List.foldl_nil, extend_eq, hvalue, toNat_ofNat_mod_64]
      omega
  split
  · have hb := toNat_ofNat_mod (v / 4096) 16 224 (by decide) (by decide)
    obtain ⟨p, hp, hmissing, hvalue, hleast, hgreatest⟩ := first?_three (b := v / 4096 % 16 + 224) (by omega)
    refine decode_first _ _ [_] rest (by rw [hb, hp]) hmissing.symm ?_ (List.forall_mem_singleton.2 (tail_bounds v)) ?_
    · rw [Begun.Fits, hleast, hgreatest, toNat_ofNat_mod_64]
      split <;> split <;> omega
    · simp only [List.foldl_cons, List.foldl_nil, extend_eq, hvalue, toNat_ofNat_mod_64]
      omega
  · have hb := toNat_ofNat_mod (v / 262144) 8 240 (by decide) (by decide)
    obtain ⟨p, hp, hmissing, hvalue, hleast, hgreatest⟩ := first?_four (b := v / 262144 % 8 + 240) (by omega)
    refine decode_first _ _ [_, _] rest (by rw [hb, hp]) hmissing.symm ?_
      (List.forall_mem_cons.2 ⟨tail_bounds (v / 64), List.forall_mem_singleton.2 (tail_bounds v)⟩) ?_
    · rw [Begun.Fits, hleast, hgreatest, toNat_ofNat_mod_64]
      split <;> split <;> omega
    · simp only [List.foldl_cons, List.foldl_nil, extend_eq, hvalue, toNat_ofNat_mod_64]
      omega

/-- One of the first 128 octets occurs in a character's only as that character. -/
theorem toNat_of_mem_encodeChar (c : Char) :
    ∀ b ∈ String.utf8EncodeChar c, b.toNat = c.toNat ∨ 0x80 ≤ b.toNat := by
  have hfirst : ∀ n d k, 0 < d ∧ d + k ≤ 256 ∧ 0x80 ≤ k → 0x80 ≤ (UInt8.ofNat (n % d + k)).toNat := by
    rintro n d k ⟨hd, hk, hle⟩
    rw [toNat_ofNat_mod n d k hd hk]
    omega
  have htail := fun n => (tail_bounds n).1
  unfold String.utf8EncodeChar
  dsimp only
  split
  · rename_i h
    exact List.forall_mem_singleton.2 (.inl (UInt8.toNat_ofNat_of_lt' (Nat.lt_of_le_of_lt h (by decide))))
  split
  · exact List.forall_mem_cons.2 ⟨.inr (hfirst _ 32 192 (by decide)), List.forall_mem_singleton.2 (.inr (htail _))⟩
  split
  · exact List.forall_mem_cons.2 ⟨.inr (hfirst _ 16 224 (by decide)),
      List.forall_mem_cons.2 ⟨.inr (htail _), List.forall_mem_singleton.2 (.inr (htail _))⟩⟩
  · exact List.forall_mem_cons.2 ⟨.inr (hfirst _ 8 240 (by decide)), List.forall_mem_cons.2 ⟨.inr (htail _),
      List.forall_mem_cons.2 ⟨.inr (htail _), List.forall_mem_singleton.2 (.inr (htail _))⟩⟩⟩

/-- **The octets of a text are read back as the text.** -/
theorem decode_encode : ∀ cs : List Char, decode none (encode cs) = cs
  | []      => rfl
  | c :: cs => by
    rw [encode, List.flatMap_cons, decode_char]
    exact congrArg (c :: ·) (decode_encode cs)

-- one U+FFFD for octets that might have begun a character, and one for each that cannot
example : decode none [0x6D, 0xFF, 0xE2, 0x82, 0x2E, 0xED, 0xA0, 0x80] =
    ['m', replacement, replacement, '.', replacement, replacement, replacement] := by decide +kernel

end MixedMode.Utf8
