import MixedMode.Text.Decoding
/-!
# Paths — octets that are shown as text

A path is any octets; those of a text are the path that the text names.  Modules are kept under the key of a path, its
text with every backslash turned into a slash.  Paths that are the same once slashes stand for backslashes have one key
(`Path.key_eq_of_slashed_eq`), and of paths that are texts only these have (`Path.key_eq_iff`).  Where octets are no
text they are shown as U+FFFD whatever they are, so there two paths can have one key and be different.
-/
namespace MixedMode

structure Path where
  octets : List UInt8
  deriving DecidableEq, Repr, Inhabited

namespace Path

/-- The path that a text names. -/
def ofString (s : String) : Path := ⟨Utf8.encode s.toList⟩

instance : Coe String Path := ⟨ofString⟩

/-- Things under the paths that texts name. -/
def named {α : Type} (things : List (String × α)) : List (Path × α) := things.map fun (s, a) => (ofString s, a)

/-- The path as it is shown. -/
def text (p : Path) : String := .ofList (Utf8.decode none p.octets)

instance : ToString Path := ⟨text⟩

/-- The octets are those of a text. -/
def IsText (p : Path) : Prop := ofString p.text = p

instance (p : Path) : Decidable p.IsText := inferInstanceAs (Decidable (_ = _))

def slash (c : Char) : Char := if c = '\\' then '/' else c

def slashOctet (b : UInt8) : UInt8 := if b = 0x5C then 0x2F else b

/-- The path with a slash for every backslash. -/
def slashed (p : Path) : Path := ⟨p.octets.map slashOctet⟩

/-- What a module is kept under: two paths with one key are one entry. -/
def key (p : Path) : String := .ofList (p.text.toList.map slash)

@[simp]
theorem text_ofString (s : String) : (ofString s).text = s := by
  rw [text, ofString, Utf8.decode_encode, String.ofList_toList]

theorem isText_iff {p : Path} : p.IsText ↔ ∃ s, p = ofString s := by
  refine ⟨fun h => ⟨p.text, h.symm⟩, ?_⟩
  rintro ⟨s, rfl⟩
  exact congrArg ofString (text_ofString s)

/-! ## Slashes among octets and among characters -/

theorem slash_of_ne {c : Char} (h : c ≠ '\\') : slash c = c := if_neg h

theorem slashOctet_of_ne {b : UInt8} (h : b ≠ 0x5C) : slashOctet b = b := if_neg h

theorem map_slash_of_ne {cs : List Char} (h : ∀ c ∈ cs, c ≠ '\\') : cs.map slash = cs :=
  (List.map_congr_left fun c hc => slash_of_ne (h c hc)).trans (List.map_id' cs)

theorem ne_of_mem_start {b : UInt8} (hb : b ≠ 0x5C) : ∀ c ∈ (Utf8.start b).1, c ≠ '\\' := by
  unfold Utf8.start
  split
  · rintro c hc rfl
    have hvalue : (Char.ofNat b.toNat).toNat = 0x5C := congrArg Char.toNat (List.mem_singleton.1 hc).symm
    rw [Utf8.toNat_char (.inl (by omega))] at hvalue
    exact hb (UInt8.toNat_inj.1 hvalue)
  · split
    · exact fun c hc => by cases hc
    · exact List.forall_mem_singleton.2 (by decide)

theorem start_slashOctet (b : UInt8) :
    Utf8.start (slashOctet b) = ((Utf8.start b).1.map slash, (Utf8.start b).2) := by
  by_cases hb : b = 0x5C
  · subst hb
    rfl
  · rw [slashOctet_of_ne hb, map_slash_of_ne (ne_of_mem_start hb)]

/-- A slash is read in place of a backslash wherever it stands: neither goes on with what was begun. -/
theorem step_slashOctet (s : Option Utf8.Begun) (b : UInt8) :
    Utf8.step s (slashOctet b) = ((Utf8.step s b).1.map slash, (Utf8.step s b).2) := by
  cases s with
  | none => exact start_slashOctet b
  | some p =>
    have hge := p.least_ge
    by_cases hfits : p.Fits b
    · have hb : b ≠ 0x5C := by
        rintro rfl
        exact absurd (Nat.le_trans hge hfits.1) (by decide)
      have hmap : (p.next b hfits).1.map slash = (p.next b hfits).1 := map_slash_of_ne <| by
        rintro c hc rfl
        exact absurd (Utf8.Begun.toNat_of_mem_next hc) (by decide)
      rw [slashOctet_of_ne hb, Utf8.step, dif_pos hfits, hmap]
    · have hnot : ¬ p.Fits (slashOctet b) := by
        by_cases hb : b = 0x5C
        · subst hb
          exact fun h => absurd (Nat.le_trans hge h.1) (by decide)
        · rwa [slashOctet_of_ne hb]
      rw [Utf8.step, Utf8.step, dif_neg hfits, dif_neg hnot, start_slashOctet]
      rfl

theorem decode_map_slashOctet : ∀ (bs : List UInt8) (s : Option Utf8.Begun),
    Utf8.decode s (bs.map slashOctet) = (Utf8.decode s bs).map slash
  | [], none | [], some _ => rfl
  | b :: bs, s => by
    rw [List.map_cons, Utf8.decode_cons, Utf8.decode_cons, step_slashOctet, List.map_append,
      decode_map_slashOctet bs]

theorem encodeChar_slash (c : Char) :
    String.utf8EncodeChar (slash c) = (String.utf8EncodeChar c).map slashOctet := by
  by_cases hc : c = '\\'
  · subst hc
    rfl
  · have hne : ∀ b ∈ String.utf8EncodeChar c, slashOctet b = id b := fun b hb => slashOctet_of_ne <| by
      rintro rfl
      rcases Utf8.toNat_of_mem_encodeChar c _ hb with h | h
      · exact hc (Char.toNat_inj.1 h.symm)
      · exact absurd h (by decide)
    rw [slash_of_ne hc, List.map_congr_left hne, List.map_id]

/-- **The key of a path is its text after slashes stand for backslashes.** -/
theorem text_slashed (p : Path) : p.slashed.text = p.key := by
  rw [text, slashed, decode_map_slashOctet, key, text, String.toList_ofList]

theorem key_key (p : Path) : (ofString p.key).key = p.key := by
  simp only [key, text_ofString, String.toList_ofList, List.map_map]
  congr 2
  funext c
  by_cases h : c = '\\' <;> simp [slash, h]

/-- **Paths that are the same once slashes stand for backslashes have one key.** -/
theorem key_eq_of_slashed_eq {p q : Path} (h : p.slashed = q.slashed) : p.key = q.key := by
  rw [← text_slashed, ← text_slashed, h]

theorem slashed_ofString (s : String) : (ofString s).slashed = ofString (ofString s).key := by
  rw [key, text_ofString, ofString, ofString, slashed, Utf8.encode, Utf8.encode, String.toList_ofList,
    List.map_flatMap, List.flatMap_map]
  exact congrArg Path.mk (congrArg (List.flatMap · s.toList) (funext fun c => (encodeChar_slash c).symm))

/-- **Paths that are texts have one key just when they are the same once slashes stand for backslashes.** -/
theorem key_eq_iff {p q : Path} (hp : p.IsText) (hq : q.IsText) : p.key = q.key ↔ p.slashed = q.slashed := by
  refine ⟨fun h => ?_, key_eq_of_slashed_eq⟩
  rw [← hp, ← hq, slashed_ofString, slashed_ofString, hp, hq, h]

example : (⟨[0x6D, 0xFF]⟩ : Path).key = (⟨[0x6D, 0xFE]⟩ : Path).key ∧
    (⟨[0x6D, 0xFF]⟩ : Path).slashed ≠ (⟨[0x6D, 0xFE]⟩ : Path).slashed := by decide +kernel

end Path
end MixedMode
