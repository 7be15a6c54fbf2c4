import MixedMode.Config.Document
import MixedMode.Proofs.Reading
/-!
# Documents — settings are read back from what is written of them

Numbers, texts and records are read back from the values that are written for them, whatever fields a record has
(`fields?_ofFields`, `Given.get?_of_mem`), and these values are sound.  So settings come back from their text as they
were, and are checked then like any other (`settings_round_trip`).
-/
namespace MixedMode

namespace Json

/-! ## Numbers -/

theorem toDigits_positive : ∀ n : Nat, 0 < n → (Nat.toDigits 10 n).foldlM NumberStage.next? .minus = some .whole := by
  intro n
  induction n using Nat.strongRecOn with
  | ind n ih =>
    intro hpos
    by_cases hn : n < 10
    · rw [Nat.toDigits_of_lt_base hn]
      simp [NumberStage.next?, Nat.isDigit_digitChar, hn, Nat.ne_of_gt hpos]
    · have hlast : (n % 10).digitChar.isDigit = true := by
        rw [Nat.isDigit_digitChar]
        exact decide_eq_true (Nat.mod_lt _ (by decide))
      rw [Nat.toDigits_of_base_le (by decide) (Nat.le_of_not_lt hn), List.foldlM_append, ih (n / 10) (by omega) (by omega)]
      simp [NumberStage.next?, hlast]

theorem isNumber_toDigits (n : Nat) : IsNumber (Nat.toDigits 10 n) := by
  by_cases hn : n = 0
  · subst hn
    exact ⟨_, .zero, .inl rfl, rfl, rfl⟩
  · exact ⟨_, .whole, .inl rfl, toDigits_positive n (Nat.pos_of_ne_zero hn), rfl⟩

theorem sound_ofNat (n : Nat) : (ofNat n).Sound := by
  intro token htoken
  obtain rfl := List.mem_singleton.1 htoken
  exact isNumber_toDigits n

theorem natural?_ofNat (n : Nat) : (ofNat n).natural? = some n := by
  have hdigits : (Nat.toDigits 10 n).all Char.isDigit = true :=
    List.all_eq_true.2 fun c hc => Nat.isDigit_of_mem_toDigits (by decide) (by decide) hc
  rw [ofNat, natural?, if_pos hdigits, Nat.ofDigitChars_toDigits (by decide) (by decide)]

theorem uint64?_ofNat (n : UInt64) : (ofNat n.toNat).uint64? = some n := by
  simp [uint64?, natural?_ofNat, UInt64.toNat_lt_size]

theorem uint32?_ofNat (n : UInt32) : (ofNat n.toNat).uint32? = some n := by
  simp [uint32?, natural?_ofNat, UInt32.toNat_lt_size]

/-! ## Texts and absent values -/

theorem sound_ofString (s : String) : (ofString s).Sound := by
  intro token htoken
  obtain rfl := List.mem_singleton.1 htoken
  exact Text.whole_encode s.toList

theorem string?_ofString (s : String) : (ofString s).string? = some s := by
  rw [ofString, string?, Text.decode?_encode, Option.map_some, String.ofList_toList]

theorem sound_bool (b : Bool) : (bool b).Sound := by
  intro token htoken
  obtain rfl := List.mem_singleton.1 htoken
  exact trivial

theorem sound_ofOption {α : Type} {f : α → Json} (hf : ∀ a, (f a).Sound) : ∀ o : Option α, (ofOption f o).Sound
  | some a => hf a
  | none   => by
    intro token htoken
    obtain rfl := List.mem_singleton.1 htoken
    exact trivial

theorem option?_ofOption_uint64 (o : Option UInt64) :
    option? uint64? (ofOption (fun n : UInt64 => ofNat n.toNat) o) = some o := by
  cases o with
  | none => rfl
  | some n => exact congrArg (Option.map some) (uint64?_ofNat n)

/-! ## Records -/

theorem sound_memberTokens : ∀ {members : List (List Char × Json)},
    (∀ m ∈ members, Text.Whole m.1 ∧ m.2.Sound) → ∀ token ∈ memberTokens members, token.Sound
  | [], _ => List.forall_mem_nil _
  | [(k, v)], h => by
    obtain ⟨hk, hv⟩ := h (k, v) (List.mem_singleton_self _)
    rw [memberTokens]
    exact List.forall_mem_cons.2 ⟨hk, List.forall_mem_cons.2 ⟨trivial, hv⟩⟩
  | (k, v) :: m :: ms, h => by
    obtain ⟨⟨hk, hv⟩, hrest⟩ := List.forall_mem_cons.1 h
    have htokens : ∀ token ∈ .comma :: memberTokens (m :: ms), token.Sound :=
      List.forall_mem_cons.2 ⟨trivial, sound_memberTokens hrest⟩
    rw [memberTokens]
    exact List.forall_mem_cons.2 ⟨hk, List.forall_mem_cons.2 ⟨trivial, List.forall_mem_append.2 ⟨hv, htokens⟩⟩⟩

/-- **A record is sound if its fields are**, whatever their names. -/
theorem sound_ofFields {fields : List (String × Json)} (h : ∀ field ∈ fields, field.2.Sound) :
    (ofFields fields).Sound := by
  rw [Sound, ofFields, tokens, List.cons_append]
  refine List.forall_mem_cons.2 ⟨trivial, List.forall_mem_append.2 ⟨sound_memberTokens fun m hm => ?_,
    List.forall_mem_cons.2 ⟨trivial, List.forall_mem_nil _⟩⟩⟩
  obtain ⟨field, hfield, rfl⟩ := List.mem_map.1 hm
  exact ⟨Text.whole_encode _, h field hfield⟩

theorem named?_encode : ∀ fields : List (String × Json),
    named? (fields.map fun (name, v) => (Text.encode name.toList, v)) = some fields
  | []                  => rfl
  | (name, v) :: fields => by
    have hrest := named?_encode fields
    unfold named? at hrest ⊢
    simp [hrest, Text.decode?_encode, String.ofList_toList]

/-- **A record gives its fields**, as they were written. -/
theorem fields?_ofFields {names : List String} {fields : List (String × Json)}
    (hnodup : (fields.map Prod.fst).Nodup) (hnames : ∀ name ∈ fields.map Prod.fst, name ∈ names) :
    (ofFields fields).fields? names = some fields := by
  have hknown : (fields.filter fun (name, _) => names.contains name) = fields := by
    refine List.filter_eq_self.2 fun field hfield => ?_
    exact List.contains_iff_mem.2 (hnames field.1 (List.mem_map_of_mem hfield))
  simp only [ofFields, fields?, named?_encode, hknown, if_pos hnodup]

namespace Given

variable {α : Type} {name : String} {v : Json} {given : Given} {read : Json → Option α} {default : α}

theorem get?_cons_self : get? ((name, v) :: given) name read default = read v := by
  rw [get?, List.lookup_cons, beq_self_eq_true]

theorem get?_cons_of_ne {k : String} (h : name ≠ k) :
    get? ((k, v) :: given) name read default = get? given name read default := by
  rw [get?, List.lookup_cons, beq_false_of_ne h, get?]

end Given
end Json

/-! ## Settings -/

namespace Convention

theorem ofJson?_toJson (c : Convention) : ofJson? c.toJson = some c := by
  have hspelling : ofSpelling? c.name = some c := by cases c <;> rfl
  show (Json.ofString c.name).string?.bind ofSpelling? = some c
  rw [Json.string?_ofString]
  exact hspelling

theorem sound_toJson (c : Convention) : c.toJson.Sound := Json.sound_ofString c.name

end Convention

namespace JitConfig

theorem ofJson?_toJson (c : JitConfig) : ofJson? c.toJson = some c := by
  have hfields : c.toJson.fields? fieldNames = some _ := Json.fields?_ofFields (by simp) (by simp [fieldNames])
  simp only [ofJson?, hfields, Option.bind_eq_bind, Option.bind_some, Json.Given.get?_cons_self,
    Json.Given.get?_cons_of_ne, ne_eq, String.reduceEq, not_false_eq_true, Convention.ofJson?_toJson,
    Json.uint32?_ofNat, Json.bool?]
  rfl

theorem sound_toJson (c : JitConfig) : c.toJson.Sound := by
  refine Json.sound_ofFields ?_
  simp [Convention.sound_toJson, Json.sound_ofNat, Json.sound_bool]

end JitConfig

namespace LimitConfig

theorem ofJson?_toJson (c : LimitConfig) : ofJson? c.toJson = some c := by
  have hfields : c.toJson.fields? fieldNames = some _ := Json.fields?_ofFields (by simp) (by simp [fieldNames])
  simp only [ofJson?, hfields, Option.bind_eq_bind, Option.bind_some, Json.Given.get?_cons_self,
    Json.Given.get?_cons_of_ne, ne_eq, String.reduceEq, not_false_eq_true, Json.uint64?_ofNat]
  rfl

theorem sound_toJson (c : LimitConfig) : c.toJson.Sound := by
  refine Json.sound_ofFields ?_
  simp [Json.sound_ofNat]

end LimitConfig

namespace MachineConfig

theorem ofJson?_toJson (c : MachineConfig) : ofJson? c.toJson = some c := by
  have hfields : c.toJson.fields? fieldNames = some _ := Json.fields?_ofFields (by simp) (by simp [fieldNames])
  simp only [ofJson?, hfields, Option.bind_eq_bind, Option.bind_some, Json.Given.get?_cons_self,
    Json.Given.get?_cons_of_ne, ne_eq, String.reduceEq, not_false_eq_true, JitConfig.ofJson?_toJson,
    LimitConfig.ofJson?_toJson, Json.uint64?_ofNat, Json.bool?]
  rfl

theorem sound_toJson (c : MachineConfig) : c.toJson.Sound := by
  refine Json.sound_ofFields ?_
  simp [JitConfig.sound_toJson, LimitConfig.sound_toJson, Json.sound_ofNat, Json.sound_bool]

end MachineConfig

namespace RunConfig

theorem ofJson?_toJson (c : RunConfig) : ofJson? c.toJson = some c := by
  have hfields : c.toJson.fields? fieldNames = some _ := Json.fields?_ofFields (by simp) (by simp [fieldNames])
  simp only [ofJson?, hfields, Option.bind_eq_bind, Option.bind_some, Json.Given.get?_cons_self,
    Json.Given.get?_cons_of_ne, ne_eq, String.reduceEq, not_false_eq_true, MachineConfig.ofJson?_toJson,
    Json.string?_ofString, Json.option?_ofOption_uint64]
  rfl

theorem sound_toJson (c : RunConfig) : c.toJson.Sound := by
  refine Json.sound_ofFields ?_
  simp [MachineConfig.sound_toJson, Json.sound_ofString, Json.sound_ofOption, Json.sound_ofNat]

end RunConfig

/-! ## Settings that are checked when they are read -/

section

variable {C : Type} {read : Json → Option C} {check : C → Except ConfigError Unit} {text : String}
  {complaint : String → String} {c : C}

/-- Read settings from a text and check them. -/
def readChecked (read : Json → Option C) (check : C → Except ConfigError Unit) (text : String)
    (complaint : String → String) : Except ConfigError C :=
  match (Json.parse? text).bind read with
  | none   => .error (.malformed (complaint text))
  | some c => (check c).map fun _ => c

theorem readChecked_eq_ok :
    readChecked read check text complaint = .ok c ↔ (Json.parse? text).bind read = some c ∧ check c = .ok () := by
  unfold readChecked
  cases (Json.parse? text).bind read with
  | none => simp
  | some c' =>
    constructor
    · intro h
      cases hcheck : check c' with
      | error e => simp [hcheck, Except.map] at h
      | ok u =>
        simp only [hcheck, Except.map, Except.ok.injEq] at h
        subst h
        exact ⟨rfl, hcheck⟩
    · rintro ⟨h, hcheck⟩
      obtain rfl := Option.some.inj h
      simp [hcheck, Except.map]

/-- **What is written is read from every text that spells it**, and checked then. -/
theorem readChecked_of_spelled {v : Json} (hread : read v = some c) (h : Json.Spelled v.tokens text.toList) :
    readChecked read check text complaint = (check c).map fun _ => c := by
  rw [readChecked, Json.parse?_of_spelled h, Option.bind_some, hread]

end

theorem MachineConfig.ofText_eq (text : String) (complaint : String → String) :
    ofText text complaint = readChecked ofJson? validate text complaint := by
  unfold ofText readChecked
  cases (Json.parse? text).bind ofJson? with
  | none => rfl
  | some c =>
    dsimp only
    cases c.validate <;> rfl

theorem RunConfig.ofText_eq (text : String) (complaint : String → String) :
    ofText text complaint = readChecked ofJson? validate text complaint := by
  unfold ofText readChecked
  cases (Json.parse? text).bind ofJson? with
  | none => rfl
  | some c =>
    dsimp only
    cases c.validate <;> rfl

/-- **Settings come back from their text.**  Whatever they are, the text that is written of them is read to the same
settings, or to the first fault if they are not valid; the parts of settings come back as they are.  Whatever text
settings are read from, they are valid, and they come back from what is written of them.  What is said of texts that
hold no settings makes no difference to any of this. -/
theorem settings_round_trip :
    (∀ (c : MachineConfig) complaint, MachineConfig.ofText c.toJson.compact complaint = c.validate.map fun _ => c) ∧
    (∀ (c : RunConfig) complaint, RunConfig.ofText c.toJson.compact complaint = c.validate.map fun _ => c) ∧
    (∀ c : JitConfig, (Json.parse? c.toJson.compact).bind JitConfig.ofJson? = some c) ∧
    (∀ c : LimitConfig, (Json.parse? c.toJson.compact).bind LimitConfig.ofJson? = some c) ∧
    (∀ c : Convention, (Json.parse? c.toJson.compact).bind Convention.ofJson? = some c) ∧
    (∀ text c complaint, MachineConfig.ofText text complaint = .ok c →
      c.validate = .ok () ∧ MachineConfig.ofText c.toJson.compact complaint = .ok c) ∧
    (∀ text c complaint, RunConfig.ofText text complaint = .ok c →
      c.validate = .ok () ∧ RunConfig.ofText c.toJson.compact complaint = .ok c) := by
  have hmachine : ∀ (c : MachineConfig) complaint,
      MachineConfig.ofText c.toJson.compact complaint = c.validate.map fun _ => c := fun c complaint => by
    rw [MachineConfig.ofText_eq, readChecked_of_spelled c.ofJson?_toJson (Json.spelled_compact c.sound_toJson)]
  have hrun : ∀ (c : RunConfig) complaint,
      RunConfig.ofText c.toJson.compact complaint = c.validate.map fun _ => c := fun c complaint => by
    rw [RunConfig.ofText_eq, readChecked_of_spelled c.ofJson?_toJson (Json.spelled_compact c.sound_toJson)]
  refine ⟨hmachine, hrun, ?_, ?_, ?_, ?_, ?_⟩
  · intro c
    rw [Json.parse?_compact c.sound_toJson, Option.bind_some, c.ofJson?_toJson]
  · intro c
    rw [Json.parse?_compact c.sound_toJson, Option.bind_some, c.ofJson?_toJson]
  · intro c
    rw [Json.parse?_compact c.sound_toJson, Option.bind_some, c.ofJson?_toJson]
  · intro text c complaint h
    rw [MachineConfig.ofText_eq] at h
    have hvalid := (readChecked_eq_ok.1 h).2
    exact ⟨hvalid, by rw [hmachine, hvalid]; rfl⟩
  · intro text c complaint h
    rw [RunConfig.ofText_eq] at h
    have hvalid := (readChecked_eq_ok.1 h).2
    exact ⟨hvalid, by rw [hrun, hvalid]; rfl⟩

end MixedMode
