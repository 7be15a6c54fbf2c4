import MixedMode.Config.Document
import Mathlib.Data.List.DropRight
import Mathlib.Data.List.Forall2
/-!
# Names — the texts that name a convention

What is left of a text without the blanks around it is the one part of it with blanks around that begins and ends with
none (`Text.trim_eq_iff`).  Two characters are lowered alike just when they are the same up to case
(`Text.toLower_eq_iff`).  So a text is read as a convention just when it is the name of it with blanks around and in any
case (`Convention.ofText_eq_ok`), and no text names two.
-/
namespace MixedMode

namespace Text

/-! ## Blanks around a text -/

def Blanks (cs : List Char) : Prop := ∀ c ∈ cs, isBlank c = true

/-- The text neither begins nor ends with a blank. -/
structure Trimmed (cs : List Char) : Prop where
  first : ∀ c, cs.head? = some c → isBlank c = false
  last : ∀ c, cs.getLast? = some c → isBlank c = false

theorem trimEnd_eq (cs : List Char) : trimEnd cs = cs.rdropWhile isBlank := rfl

theorem trimEnd_append {v : List Char} (hv : Blanks v) (cs : List Char) : trimEnd (cs ++ v) = trimEnd cs := by
  rw [trimEnd, List.reverse_append, List.dropWhile_append_of_pos fun c hc => hv c (List.mem_reverse.1 hc)]
  rfl

/-- **Blanks around a text make no difference.** -/
theorem trim_padded {u v : List Char} (hu : Blanks u) (hv : Blanks v) (cs : List Char) :
    trim (u ++ cs ++ v) = trim cs := by
  have hnone : v.dropWhile isBlank = [] := List.dropWhile_eq_nil_iff.2 hv
  rw [trim, trim, List.append_assoc, List.dropWhile_append_of_pos hu, List.dropWhile_append]
  split
  · rename_i hempty
    rw [List.isEmpty_iff.1 hempty, hnone]
  · exact trimEnd_append hv _

theorem trimmed_trim (cs : List Char) : Trimmed (trim cs) where
  first := by
    intro c hc
    obtain ⟨rest, hrest⟩ : trim cs <+: cs.dropWhile isBlank := List.rdropWhile_prefix isBlank _
    have hhead : (cs.dropWhile isBlank).head? = some c := by
      rw [← hrest, List.head?_append, hc]
      rfl
    have := List.head?_dropWhile_not isBlank cs
    rwa [hhead] at this
  last := by
    intro c hc
    have hne : trim cs ≠ [] := fun h => by rw [h] at hc; cases hc
    have hlast := List.rdropWhile_last_not isBlank (cs.dropWhile isBlank) hne
    have hc' : (trim cs).getLast hne = c := by
      rw [List.getLast?_eq_getLast_of_ne_nil hne] at hc
      exact Option.some.inj hc
    rw [← hc']
    exact Bool.eq_false_iff.2 hlast

theorem trim_of_trimmed {cs : List Char} (h : Trimmed cs) : trim cs = cs := by
  have hdrop : cs.dropWhile isBlank = cs := by
    cases cs with
    | nil => rfl
    | cons c cs => exact List.dropWhile_cons_of_neg (Bool.eq_false_iff.1 (h.first c rfl))
  rw [trim, hdrop, trimEnd_eq, List.rdropWhile_eq_self_iff]
  exact fun hne => Bool.eq_false_iff.1 (h.last _ (List.getLast?_eq_getLast_of_ne_nil hne))

theorem exists_padding (cs : List Char) : ∃ u v, cs = u ++ trim cs ++ v ∧ Blanks u ∧ Blanks v := by
  refine ⟨cs.takeWhile isBlank, (cs.dropWhile isBlank).rtakeWhile isBlank, ?_, fun c => List.mem_takeWhile_imp,
    fun c => List.mem_rtakeWhile_imp⟩
  rw [trim, trimEnd_eq, List.append_assoc, List.rdropWhile_append_rtakeWhile, List.takeWhile_append_dropWhile]

/-- **What is left of a text without the blanks around it**: the part with only blanks around it that itself begins and
ends with none. -/
theorem trim_eq_iff {cs word : List Char} :
    trim cs = word ↔ Trimmed word ∧ ∃ u v, cs = u ++ word ++ v ∧ Blanks u ∧ Blanks v := by
  constructor
  · rintro rfl
    exact ⟨trimmed_trim cs, exists_padding cs⟩
  · rintro ⟨hword, u, v, rfl, hu, hv⟩
    rw [trim_padded hu hv, trim_of_trimmed hword]

/-! ## Case -/

/-- The characters are equal, or the two forms of one ASCII letter. -/
def SameLetter (a b : Char) : Prop :=
  a = b ∨ (a.isUpper = true ∧ b.toNat = a.toNat + 32) ∨ (b.isUpper = true ∧ a.toNat = b.toNat + 32)

theorem SameLetter.symm {a b : Char} (h : SameLetter a b) : SameLetter b a := by
  rcases h with h | h | h
  · exact .inl h.symm
  · exact .inr (.inr h)
  · exact .inr (.inl h)

theorem isUpper_iff (c : Char) : c.isUpper = true ↔ 65 ≤ c.toNat ∧ c.toNat ≤ 90 :=
  decide_eq_true_iff.trans Iff.rfl

theorem toNat_toLower (c : Char) :
    c.toLower.toNat = if 65 ≤ c.toNat ∧ c.toNat ≤ 90 then c.toNat + 32 else c.toNat := by
  split
  · rename_i hc
    have hlower : c.toLower.val = c.val + 32 := congrArg Char.val (dif_pos hc)
    have hval : c.val.toNat = c.toNat := rfl
    have hlt : c.val.toNat + 32 < 2 ^ 32 := by omega
    exact (congrArg UInt32.toNat hlower).trans ((UInt32.toNat_add ..).trans (Nat.mod_eq_of_lt hlt))
  · rename_i hc
    exact congrArg Char.toNat (dif_neg hc)

/-- **Characters are lowered alike just when they are the same up to case.** -/
theorem toLower_eq_iff (a b : Char) : a.toLower = b.toLower ↔ SameLetter a b := by
  rw [SameLetter, isUpper_iff, isUpper_iff, ← Char.toNat_inj, toNat_toLower, toNat_toLower, ← Char.toNat_inj]
  split <;> split <;> omega

/-- A blank is no letter, and has no other form. -/
theorem SameLetter.eq_of_isBlank {a b : Char} (h : SameLetter a b) (ha : isBlank a = true) : a = b := by
  simp only [isBlank, Bool.or_eq_true, Bool.and_eq_true, decide_eq_true_eq, beq_iff_eq] at ha
  rw [SameLetter, isUpper_iff, isUpper_iff] at h
  rcases h with h | h | h
  · exact h
  · omega
  · omega

/-- A character that is no ASCII character has no other form. -/
theorem SameLetter.lt_of_lt {a b : Char} (h : SameLetter a b) (hb : b.toNat < 128) : a.toNat < 128 := by
  rw [SameLetter, isUpper_iff, isUpper_iff] at h
  rcases h with h | h | h
  · rw [h]
    exact hb
  · omega
  · omega

/-- Texts are the same up to case when they are lowered alike. -/
theorem forall₂_sameLetter_iff (s t : List Char) :
    List.Forall₂ SameLetter s t ↔ s.map Char.toLower = t.map Char.toLower := by
  have hletter : SameLetter = fun a b : Char => a.toLower = b.toLower :=
    funext fun a => funext fun b => propext (toLower_eq_iff a b).symm
  rw [← List.forall₂_eq_eq_eq, List.forall₂_map_left_iff, List.forall₂_map_right_iff, hletter]

theorem exists_mem_of_map_toLower {s t : List Char} (h : s.map Char.toLower = t.map Char.toLower) {a : Char}
    (ha : a ∈ s) : ∃ b ∈ t, SameLetter a b := by
  have hmem : a.toLower ∈ t.map Char.toLower := h ▸ List.mem_map_of_mem ha
  obtain ⟨b, hb, hba⟩ := List.mem_map.1 hmem
  exact ⟨b, hb, (toLower_eq_iff a b).1 hba.symm⟩

theorem Blanks.of_map_toLower {s t : List Char} (hs : Blanks s) (h : s.map Char.toLower = t.map Char.toLower) :
    Blanks t := by
  intro b hb
  obtain ⟨a, ha, hab⟩ := exists_mem_of_map_toLower h.symm hb
  rw [← hab.symm.eq_of_isBlank (hs a ha)]
  exact hs a ha

end Text

/-! ## The texts that name a convention -/

namespace Convention

open Text (Blanks Trimmed SameLetter trim)

/-- The text is the name of the convention, with any blanks around it and in any case of its ASCII letters. -/
def NamedBy (c : Convention) (text : String) : Prop :=
  ∃ u n v, text.toList = u ++ n ++ v ∧ Blanks u ∧ Blanks v ∧ List.Forall₂ SameLetter n c.name.toList

theorem isBlank_name (c : Convention) : ∀ a ∈ c.name.toList, Text.isBlank a = false := by
  have h : c.name.toList.all (fun a => !Text.isBlank a) = true := by cases c <;> decide
  exact fun a ha => (Bool.not_eq_true' _).mp (List.all_eq_true.1 h a ha)

theorem isAscii_name (c : Convention) : ∀ a ∈ c.name.toList, a.toNat < 128 := by
  have h : c.name.toList.all (fun a => decide (a.toNat < 128)) = true := by cases c <;> decide
  exact fun a ha => of_decide_eq_true (List.all_eq_true.1 h a ha)

/-- No two conventions have names that differ in case only. -/
theorem map_toLower_name_injective : Function.Injective fun c : Convention => c.name.toList.map Char.toLower := by
  have h : ∀ c ∈ all, ∀ c' ∈ all, c.name.toList.map Char.toLower = c'.name.toList.map Char.toLower → c = c' := by
    decide
  exact fun c c' => h c c.mem_all c' c'.mem_all

/-- **A text names a convention just when it is the name, up to case, without the blanks around it.** -/
theorem namedBy_iff (c : Convention) (text : String) :
    c.NamedBy text ↔ (trim text.toList).map Char.toLower = c.name.toList.map Char.toLower := by
  constructor
  · rintro ⟨u, n, v, htext, hu, hv, hn⟩
    rw [Text.forall₂_sameLetter_iff] at hn
    have hnone : ∀ a ∈ n, Text.isBlank a = false := fun a ha => by
      obtain ⟨b, hb, hab⟩ := Text.exists_mem_of_map_toLower hn ha
      by_contra hblank
      rw [Bool.not_eq_false] at hblank
      rw [hab.eq_of_isBlank hblank, c.isBlank_name b hb] at hblank
      cases hblank
    have htrimmed : Trimmed n :=
      ⟨fun a ha => hnone a (List.mem_of_head? ha), fun a ha => hnone a (List.mem_of_getLast? ha)⟩
    rw [Text.trim_eq_iff.2 ⟨htrimmed, u, v, htext, hu, hv⟩, hn]
  · intro h
    obtain ⟨u, v, htext, hu, hv⟩ := Text.exists_padding text.toList
    exact ⟨u, _, v, htext, hu, hv, (Text.forall₂_sameLetter_iff _ _).2 h⟩

/-- **No text names two conventions.** -/
theorem NamedBy.unique {c c' : Convention} {text : String} (h : c.NamedBy text) (h' : c'.NamedBy text) : c = c' := by
  rw [namedBy_iff] at h h'
  exact map_toLower_name_injective (h.symm.trans h')

/-- **What a text is read as**: the convention that it names, or if it names none the error with the text without the
blanks around it. -/
theorem ofText_cases (text : String) :
    (∃ c : Convention, c.NamedBy text ∧ ofText text = .ok c) ∨
    (∀ c : Convention, ¬ c.NamedBy text) ∧
      ofText text = .error (.unknownConvention (String.ofList (trim text.toList))) := by
  have hnamed : ∀ c : Convention, sameLetters c.name.toList (trim text.toList) = true ↔ c.NamedBy text := fun c => by
    rw [namedBy_iff, sameLetters, beq_iff_eq, eq_comm]
  rw [ofText]
  cases hfind : all.find? fun c => sameLetters c.name.toList (trim text.toList) with
  | some c =>
    have hsame := List.find?_some hfind
    exact .inl ⟨c, (hnamed c).1 hsame, rfl⟩
  | none =>
    have hnone := List.find?_eq_none.1 hfind
    exact .inr ⟨fun c hc => hnone c c.mem_all ((hnamed c).2 hc), rfl⟩

theorem ofText_eq_ok (c : Convention) (text : String) : ofText text = .ok c ↔ c.NamedBy text := by
  rcases ofText_cases text with ⟨c', hc', h⟩ | ⟨hnone, h⟩ <;> rw [h]
  · constructor
    · intro heq
      cases heq
      exact hc'
    · exact fun hc => congrArg Except.ok (hc'.unique hc)
  · exact iff_of_false nofun (hnone c)

theorem ofText_eq_error (e : ConfigError) (text : String) :
    ofText text = .error e ↔ (∀ c : Convention, ¬ c.NamedBy text) ∧
      e = .unknownConvention (String.ofList (trim text.toList)) := by
  rcases ofText_cases text with ⟨c', hc', h⟩ | ⟨hnone, h⟩ <;> rw [h]
  · exact iff_of_false nofun fun he => he.1 c' hc'
  · rw [Except.error.injEq, and_iff_right hnone, eq_comm]

/-- **Case makes no difference.** -/
theorem NamedBy.of_sameLetters {c : Convention} {s t : String} (hc : c.NamedBy s)
    (h : List.Forall₂ SameLetter s.toList t.toList) : c.NamedBy t := by
  obtain ⟨u, n, v, hs, hu, hv, hn⟩ := hc
  rw [Text.forall₂_sameLetter_iff] at h hn
  rw [hs, List.map_append, List.map_append] at h
  obtain ⟨un, v', ht, hun, hv'⟩ := List.map_eq_append_iff.1 h.symm
  obtain ⟨u', n', rfl, hu', hn'⟩ := List.map_eq_append_iff.1 hun
  exact ⟨u', n', v', ht, hu.of_map_toLower hu'.symm, hv.of_map_toLower hv'.symm,
    (Text.forall₂_sameLetter_iff _ _).2 (hn'.trans hn)⟩

/-- A text that names a convention is ASCII but for the blanks around it. -/
theorem NamedBy.isAscii {c : Convention} {text : String} (hc : c.NamedBy text) :
    ∀ a ∈ trim text.toList, a.toNat < 128 := by
  intro a ha
  obtain ⟨b, hb, hab⟩ := Text.exists_mem_of_map_toLower ((namedBy_iff c text).1 hc) ha
  exact hab.lt_of_lt (c.isAscii_name b hb)

/-- A name that a document may use is a text that names the convention. -/
theorem namedBy_of_ofSpelling? {c : Convention} {name : String} (h : ofSpelling? name = some c) : c.NamedBy name := by
  rw [ofSpelling?] at h
  have hspelling := List.find?_some h
  have hall : ∀ s ∈ c.spellings, ofText s = .ok c := by cases c <;> decide
  exact (ofText_eq_ok c name).1 (hall name (List.contains_iff_mem.1 hspelling))

/-- The value is a text that spells this name, or the object with the name as its only member and nothing in it. -/
def Spells (v : Json) (name : String) : Prop :=
  v.string? = some name ∨ ∃ key, v = .object [(key, .null)] ∧ Json.string? (.text key) = some name

theorem ofJson?_of_spells {v : Json} {name : String} (h : Spells v name) : ofJson? v = ofSpelling? name := by
  rcases h with h | ⟨key, rfl, h⟩
  · cases v with
    | text raw => rw [ofJson?, h, Option.bind_some]; exact nofun
    | _ => cases h
  · rw [ofJson?, h, Option.bind_some]

/-- **A convention is read from its names and from nothing else.**  A text is read as a convention just when it is the
name of it, with any blanks around it and in any case of its ASCII letters, and no text names two.  Of any other text
the error carries what is between the blanks at its ends, as it is.  Hence blanks around a text make no difference, nor
does case to what is accepted; the name of a convention is read as that convention, a text with other than ASCII
characters between the blanks is refused, and so every name that is read in a document is read here as the same. -/
theorem ofText_reads_names :
    (∀ (c : Convention) (text : String), ofText text = .ok c ↔
      ∃ u n v, text.toList = u ++ n ++ v ∧ Blanks u ∧ Blanks v ∧ List.Forall₂ SameLetter n c.name.toList) ∧
    (∀ (c c' : Convention) (text : String), c.NamedBy text → c'.NamedBy text → c = c') ∧
    (∀ (e : ConfigError) (text : String), ofText text = .error e ↔ (∀ c : Convention, ¬ c.NamedBy text) ∧
      ∃ u word v, text.toList = u ++ word ++ v ∧ Blanks u ∧ Blanks v ∧ Trimmed word ∧
        e = .unknownConvention (String.ofList word)) ∧
    (∀ (text : String) (u v : List Char), Blanks u → Blanks v →
      ofText (String.ofList (u ++ text.toList ++ v)) = ofText text) ∧
    (∀ (c : Convention) (s t : String), List.Forall₂ SameLetter s.toList t.toList →
      (ofText s = .ok c ↔ ofText t = .ok c)) ∧
    (∀ c : Convention, ofText c.name = .ok c) ∧
    (∀ (text : String) (u word v : List Char), text.toList = u ++ word ++ v → Blanks u → Blanks v → Trimmed word →
      (∃ a ∈ word, 128 ≤ a.toNat) → ofText text = .error (.unknownConvention (String.ofList word))) ∧
    (∀ (c : Convention) (v : Json) (name : String), Spells v name → ofJson? v = some c → ofText name = .ok c) := by
  refine ⟨ofText_eq_ok, fun c c' text => NamedBy.unique, fun e text => ?_, fun text u v hu hv => ?_,
    fun c s t hst => ?_, ofText_name, fun text u word v htext hu hv hword hother => ?_, fun c v name hv h => ?_⟩
  · rw [ofText_eq_error]
    refine and_congr_right fun _ => ⟨?_, ?_⟩
    · rintro rfl
      obtain ⟨u, v, htext, hu, hv⟩ := Text.exists_padding text.toList
      exact ⟨u, _, v, htext, hu, hv, Text.trimmed_trim _, rfl⟩
    · rintro ⟨u, word, v, htext, hu, hv, hword, rfl⟩
      rw [Text.trim_eq_iff.2 ⟨hword, u, v, htext, hu, hv⟩]
  · rw [ofText, ofText, String.toList_ofList, Text.trim_padded hu hv]
  · rw [ofText_eq_ok, ofText_eq_ok]
    refine ⟨fun h => h.of_sameLetters hst, fun h => h.of_sameLetters ?_⟩
    rw [Text.forall₂_sameLetter_iff] at hst ⊢
    exact hst.symm
  · have htrim := Text.trim_eq_iff.2 ⟨hword, u, v, htext, hu, hv⟩
    obtain ⟨a, ha, hlarge⟩ := hother
    rw [ofText_eq_error, htrim]
    refine ⟨fun c hc => ?_, rfl⟩
    rw [← htrim] at ha
    exact absurd (hc.isAscii a ha) (Nat.not_lt_of_le hlarge)
  · rw [ofJson?_of_spells hv] at h
    exact (ofText_eq_ok c name).2 (namedBy_of_ofSpelling? h)

example : ofText "\u3000OperandStack\u00a0" = .ok .operandStack := by decide +kernel

/-- The last letter is the Kelvin sign. -/
example : ofText " operandstac\u212a\n" = .error (.unknownConvention "operandstac\u212a") := by decide +kernel

end Convention
end MixedMode
