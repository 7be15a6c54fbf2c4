import Mathlib.Logic.Relation
import MixedMode.Proofs.Records
/-!
# Partial documents — settings are the defaults with the fields that are given

For each record of settings: what document writes it, field by field (`Written`), with the records inside it written in
the same way; which changes of a document make no difference (`Change`); and which documents give too much (`Excess`).
The reader finds the record that is written, finds the same after a change, and finds nothing in what gives too much;
`partial_documents` says so of the texts of documents, with the check that comes after reading.
-/
namespace MixedMode

open Json (Holds Plain Gives)

variable {v w : Json}

/-! ## Values -/

namespace Json

def WritesBool (b : Bool) (v : Json) : Prop := v = .bool b

def WritesUInt32 (n : UInt32) (v : Json) : Prop := v = .ofNat n.toNat

def WritesUInt64 (n : UInt64) (v : Json) : Prop := v = .ofNat n.toNat

/-- A text with any escapes. -/
def WritesString (s : String) (v : Json) : Prop := ∃ raw, v = .text raw ∧ Text.decode? raw = some s.toList

theorem bool?_of_writes (b : Bool) (v : Json) (h : v.WritesBool b) : v.bool? = some b := by
  rw [h, bool?]

theorem uint32?_of_writes (n : UInt32) (v : Json) (h : v.WritesUInt32 n) : v.uint32? = some n := by
  rw [h, uint32?_ofNat]

theorem uint64?_of_writes (n : UInt64) (v : Json) (h : v.WritesUInt64 n) : v.uint64? = some n := by
  rw [h, uint64?_ofNat]

theorem string?_of_writes (s : String) (v : Json) (h : v.WritesString s) : v.string? = some s := by
  obtain ⟨raw, rfl, hraw⟩ := h
  rw [string?, hraw, Option.map_some, String.ofList_toList]

end Json

namespace Convention

/-- One of the spellings of the convention, or an object with that as its only member and nothing in it. -/
inductive Writes (c : Convention) : Json → Prop
  | name {v : Json} {s : String} (hv : v.WritesString s) (hs : s ∈ c.spellings) : Writes c v
  | member {key : List Char} {s : String} (hkey : (Json.text key).WritesString s) (hs : s ∈ c.spellings) :
      Writes c (.object [(key, .null)])

theorem ofSpelling?_of_mem {c : Convention} : ∀ s ∈ c.spellings, ofSpelling? s = some c := by
  cases c <;> decide

theorem ofJson?_of_writes (c : Convention) (v : Json) (h : c.Writes v) : ofJson? v = some c := by
  cases h with
  | @name _ s hv hs =>
    have hstring := Json.string?_of_writes s v hv
    obtain ⟨raw, rfl, -⟩ := hv
    rw [ofJson?, hstring, Option.bind_some, ofSpelling?_of_mem s hs]
    exact nofun
  | @member key s hkey hs => rw [ofJson?, Json.string?_of_writes s _ hkey, Option.bind_some, ofSpelling?_of_mem s hs]

end Convention

/-! ## Settings for compiled code -/

namespace JitConfig

theorem nodup_fieldNames : fieldNames.Nodup := by decide

/-- The document writes these settings: the defaults, with the fields that it gives. -/
structure Written (c : JitConfig) (v : Json) : Prop where
  plain : Plain fieldNames v
  callStyle : Gives fieldNames v "call_style" Convention.Writes ({} : JitConfig).callStyle c.callStyle
  maxInlineDepth : Gives fieldNames v "max_inline_depth" Json.WritesUInt32 ({} : JitConfig).maxInlineDepth
    c.maxInlineDepth
  debug : Gives fieldNames v "debug" Json.WritesBool ({} : JitConfig).debug c.debug
  verbose : Gives fieldNames v "verbose" Json.WritesBool ({} : JitConfig).verbose c.verbose

theorem ofJson?_of_written (c : JitConfig) (v : Json) (h : c.Written v) : ofJson? v = some c := by
  obtain ⟨given, hgiven⟩ := h.plain.fields?
  have hstyle := h.callStyle.get?_eq nodup_fieldNames hgiven (by decide) Convention.ofJson?_of_writes
  have hdepth := h.maxInlineDepth.get?_eq nodup_fieldNames hgiven (by decide) Json.uint32?_of_writes
  have hdebug := h.debug.get?_eq nodup_fieldNames hgiven (by decide) Json.bool?_of_writes
  have hverbose := h.verbose.get?_eq nodup_fieldNames hgiven (by decide) Json.bool?_of_writes
  simp only [ofJson?, hgiven, hstyle, hdepth, hdebug, hverbose, Option.bind_eq_bind, Option.bind_some]
  rfl

def Change : Json → Json → Prop := Json.Change fieldNames fun _ _ _ => False

theorem ofJson?_of_change (v w : Json) (h : Change v w) : ofJson? v = ofJson? w := by
  refine h.bind_eq nodup_fieldNames fun given given' halike => ?_
  rw [halike.get?_eq nofun, halike.get?_eq nofun, halike.get?_eq nofun, halike.get?_eq nofun]

theorem ofJson?_of_excess (h : Json.Excess fieldNames v) : ofJson? v = none := by
  rw [ofJson?, h.fields?_eq_none]
  rfl

end JitConfig

/-! ## Limits -/

namespace LimitConfig

theorem nodup_fieldNames : fieldNames.Nodup := by decide

structure Written (c : LimitConfig) (v : Json) : Prop where
  plain : Plain fieldNames v
  maxStackSize : Gives fieldNames v "max_stack_size" Json.WritesUInt64 ({} : LimitConfig).maxStackSize c.maxStackSize
  maxRecursionDepth : Gives fieldNames v "max_recursion_depth" Json.WritesUInt64 ({} : LimitConfig).maxRecursionDepth
    c.maxRecursionDepth

theorem ofJson?_of_written (c : LimitConfig) (v : Json) (h : c.Written v) : ofJson? v = some c := by
  obtain ⟨given, hgiven⟩ := h.plain.fields?
  have hstack := h.maxStackSize.get?_eq nodup_fieldNames hgiven (by decide) Json.uint64?_of_writes
  have hdepth := h.maxRecursionDepth.get?_eq nodup_fieldNames hgiven (by decide) Json.uint64?_of_writes
  simp only [ofJson?, hgiven, hstack, hdepth, Option.bind_eq_bind, Option.bind_some]
  rfl

def Change : Json → Json → Prop := Json.Change fieldNames fun _ _ _ => False

theorem ofJson?_of_change (v w : Json) (h : Change v w) : ofJson? v = ofJson? w := by
  refine h.bind_eq nodup_fieldNames fun given given' halike => ?_
  rw [halike.get?_eq nofun, halike.get?_eq nofun]

theorem ofJson?_of_excess (h : Json.Excess fieldNames v) : ofJson? v = none := by
  rw [ofJson?, h.fields?_eq_none]
  rfl

end LimitConfig

/-! ## Settings of a machine -/

namespace MachineConfig

theorem nodup_fieldNames : fieldNames.Nodup := by decide

/-- The document writes the settings; an object inside it sets only the fields that it gives itself. -/
structure Written (c : MachineConfig) (v : Json) : Prop where
  plain : Plain fieldNames v
  jit : Gives fieldNames v "jit" JitConfig.Written ({} : JitConfig) c.jit
  loopCount : Gives fieldNames v "loop_count" Json.WritesUInt64 ({} : MachineConfig).loopCount c.loopCount
  initialStackSize : Gives fieldNames v "initial_stack_size" Json.WritesUInt64 ({} : MachineConfig).initialStackSize
    c.initialStackSize
  debug : Gives fieldNames v "debug" Json.WritesBool ({} : MachineConfig).debug c.debug
  verbose : Gives fieldNames v "verbose" Json.WritesBool ({} : MachineConfig).verbose c.verbose
  limits : Gives fieldNames v "limits" LimitConfig.Written ({} : LimitConfig) c.limits

theorem ofJson?_of_written (c : MachineConfig) (v : Json) (h : c.Written v) : ofJson? v = some c := by
  obtain ⟨given, hgiven⟩ := h.plain.fields?
  have hjit := h.jit.get?_eq nodup_fieldNames hgiven (by decide) JitConfig.ofJson?_of_written
  have hloop := h.loopCount.get?_eq nodup_fieldNames hgiven (by decide) Json.uint64?_of_writes
  have hstack := h.initialStackSize.get?_eq nodup_fieldNames hgiven (by decide) Json.uint64?_of_writes
  have hdebug := h.debug.get?_eq nodup_fieldNames hgiven (by decide) Json.bool?_of_writes
  have hverbose := h.verbose.get?_eq nodup_fieldNames hgiven (by decide) Json.bool?_of_writes
  have hlimits := h.limits.get?_eq nodup_fieldNames hgiven (by decide) LimitConfig.ofJson?_of_written
  simp only [ofJson?, hgiven, hjit, hloop, hstack, hdebug, hverbose, hlimits, Option.bind_eq_bind, Option.bind_some]
  rfl

/-- A change inside the value of a field. -/
def Inner (name : String) (v w : Json) : Prop :=
  name = "jit" ∧ JitConfig.Change v w ∨ name = "limits" ∧ LimitConfig.Change v w

def Change : Json → Json → Prop := Json.Change fieldNames Inner

theorem ofJson?_of_change (v w : Json) (h : Change v w) : ofJson? v = ofJson? w := by
  refine h.bind_eq nodup_fieldNames fun given given' halike => ?_
  have hjit : given.get? "jit" JitConfig.ofJson? {} = given'.get? "jit" JitConfig.ofJson? {} := by
    refine halike.get?_eq fun v w h => ?_
    obtain ⟨-, h⟩ | ⟨hname, -⟩ := h
    · exact JitConfig.ofJson?_of_change v w h
    · exact absurd hname (by decide)
  have hlimits : given.get? "limits" LimitConfig.ofJson? {} = given'.get? "limits" LimitConfig.ofJson? {} := by
    refine halike.get?_eq fun v w h => ?_
    obtain ⟨hname, -⟩ | ⟨-, h⟩ := h
    · exact absurd hname (by decide)
    · exact LimitConfig.ofJson?_of_change v w h
  have hflat : ∀ {α : Type} {name : String} {read : Json → Option α} {default : α}, name ≠ "jit" → name ≠ "limits" →
      given.get? name read default = given'.get? name read default := by
    rintro α name read default hjit hlimits
    refine halike.get?_eq fun v w h => ?_
    obtain ⟨hname, -⟩ | ⟨hname, -⟩ := h
    · exact absurd hname hjit
    · exact absurd hname hlimits
  simp only [hjit, hlimits, hflat, ne_eq, String.reduceEq, not_false_eq_true]

/-- The document gives a field twice or too many values, or the object inside it does. -/
inductive Excess : Json → Prop
  | here {v : Json} (h : Json.Excess fieldNames v) : Excess v
  | jit {v w : Json} (hw : Holds fieldNames "jit" w v) (h : Json.Excess JitConfig.fieldNames w) : Excess v
  | limits {v w : Json} (hw : Holds fieldNames "limits" w v) (h : Json.Excess LimitConfig.fieldNames w) : Excess v

theorem ofJson?_of_excess (h : Excess v) : ofJson? v = none := by
  unfold ofJson?
  cases hgiven : v.fields? fieldNames with
  | none => rfl
  | some given =>
    cases h with
    | here h =>
      rw [h.fields?_eq_none] at hgiven
      cases hgiven
    | jit hw h => simp [hw.get?_eq nodup_fieldNames hgiven (by decide), JitConfig.ofJson?_of_excess h]
    | limits hw h => simp [hw.get?_eq nodup_fieldNames hgiven (by decide), LimitConfig.ofJson?_of_excess h]

end MachineConfig

/-! ## Settings of a run -/

namespace RunConfig

theorem nodup_fieldNames : fieldNames.Nodup := by decide

def WritesEntry (entry : Option UInt64) (v : Json) : Prop := v = .ofOption (fun n : UInt64 => .ofNat n.toNat) entry

theorem entry_of_writes (entry : Option UInt64) (v : Json) (h : WritesEntry entry v) :
    v.option? Json.uint64? = some entry := by
  rw [h, Json.option?_ofOption_uint64]

structure Written (c : RunConfig) (v : Json) : Prop where
  plain : Plain fieldNames v
  machine : Gives fieldNames v "vm" MachineConfig.Written ({} : RunConfig).machine c.machine
  module : Gives fieldNames v "module" Json.WritesString ({} : RunConfig).module c.module
  entry : Gives fieldNames v "entry" WritesEntry ({} : RunConfig).entry c.entry

theorem ofJson?_of_written (c : RunConfig) (v : Json) (h : c.Written v) : ofJson? v = some c := by
  obtain ⟨given, hgiven⟩ := h.plain.fields?
  have hmachine := h.machine.get?_eq nodup_fieldNames hgiven (by decide) MachineConfig.ofJson?_of_written
  have hmodule := h.module.get?_eq nodup_fieldNames hgiven (by decide) Json.string?_of_writes
  have hentry := h.entry.get?_eq nodup_fieldNames hgiven (by decide) entry_of_writes
  simp only [ofJson?, hgiven, hmachine, hmodule, hentry, Option.bind_eq_bind, Option.bind_some]
  rfl

def Inner (name : String) (v w : Json) : Prop := name = "vm" ∧ MachineConfig.Change v w

def Change : Json → Json → Prop := Json.Change fieldNames Inner

theorem ofJson?_of_change (v w : Json) (h : Change v w) : ofJson? v = ofJson? w := by
  refine h.bind_eq nodup_fieldNames fun given given' halike => ?_
  have hmachine : given.get? "vm" MachineConfig.ofJson? {} = given'.get? "vm" MachineConfig.ofJson? {} :=
    halike.get?_eq fun v w h => MachineConfig.ofJson?_of_change v w h.2
  have hflat : ∀ {α : Type} {name : String} {read : Json → Option α} {default : α}, name ≠ "vm" →
      given.get? name read default = given'.get? name read default := fun hname =>
    halike.get?_eq fun v w h => absurd h.1 hname
  simp only [hmachine, hflat, ne_eq, String.reduceEq, not_false_eq_true]

inductive Excess : Json → Prop
  | here {v : Json} (h : Json.Excess fieldNames v) : Excess v
  | machine {v w : Json} (hw : Holds fieldNames "vm" w v) (h : MachineConfig.Excess w) : Excess v

theorem ofJson?_of_excess (h : Excess v) : ofJson? v = none := by
  unfold ofJson?
  cases hgiven : v.fields? fieldNames with
  | none => rfl
  | some given =>
    cases h with
    | here h =>
      rw [h.fields?_eq_none] at hgiven
      cases hgiven
    | machine hw h => simp [hw.get?_eq nodup_fieldNames hgiven (by decide), MachineConfig.ofJson?_of_excess h]

end RunConfig

/-! ## Settings that are checked when they are read -/

section

variable {C : Type} {read : Json → Option C} {check : C → Except ConfigError Unit} {text text' : String}
  {complaint : String → String}

theorem readChecked_of_none (hread : read v = none) (h : Json.Spelled v.tokens text.toList) :
    readChecked read check text complaint = .error (.malformed (complaint text)) := by
  rw [readChecked, Json.parse?_of_spelled h, Option.bind_some, hread]

/-- Documents that are read alike come to the same, or both hold no settings and it is said so of each text. -/
theorem readChecked_congr (hread : read v = read w) (h : Json.Spelled v.tokens text.toList)
    (h' : Json.Spelled w.tokens text'.toList) :
    readChecked read check text complaint = readChecked read check text' complaint ∨
      (readChecked read check text complaint = .error (.malformed (complaint text)) ∧
        readChecked read check text' complaint = .error (.malformed (complaint text'))) := by
  cases hw : read w with
  | none => exact .inr ⟨readChecked_of_none (hread.trans hw) h, readChecked_of_none hw h'⟩
  | some c => exact .inl ((readChecked_of_spelled (hread.trans hw) h).trans (readChecked_of_spelled hw h').symm)

/-- What no change makes a difference to is the same after any number of changes, forth or back. -/
theorem read_eq_of_eqvGen {change : Json → Json → Prop} (hread : ∀ v w, change v w → read v = read w)
    (h : Relation.EqvGen change v w) : read v = read w :=
  congrArg (Quot.lift read hread) (Quot.eqvGen_sound h)

end

/-- **Settings are the defaults with the fields that are given.**  Whatever document writes settings, each text that
spells it is read to them, or to their first fault if they are not valid.  The order of the members, white space and
members without the name of a field make no difference, and neither does writing the first fields as a list, but to what
is said of a text that holds no settings; a field that is given twice, or a list of too many values, leaves nothing to
read.  All this holds inside of the document as well, of each object that is the value of a field. -/
theorem partial_documents (complaint : String → String) :
    (∀ text v (c : MachineConfig), Json.Spelled v.tokens text.toList → c.Written v →
      MachineConfig.ofText text complaint = c.validate.map fun _ => c) ∧
    (∀ text v (c : RunConfig), Json.Spelled v.tokens text.toList → c.Written v →
      RunConfig.ofText text complaint = c.validate.map fun _ => c) ∧
    (∀ text text' v w, Json.Spelled v.tokens text.toList → Json.Spelled w.tokens text'.toList →
      Relation.EqvGen MachineConfig.Change v w →
        MachineConfig.ofText text complaint = MachineConfig.ofText text' complaint ∨
          (MachineConfig.ofText text complaint = .error (.malformed (complaint text)) ∧
            MachineConfig.ofText text' complaint = .error (.malformed (complaint text')))) ∧
    (∀ text text' v w, Json.Spelled v.tokens text.toList → Json.Spelled w.tokens text'.toList →
      Relation.EqvGen RunConfig.Change v w →
        RunConfig.ofText text complaint = RunConfig.ofText text' complaint ∨
          (RunConfig.ofText text complaint = .error (.malformed (complaint text)) ∧
            RunConfig.ofText text' complaint = .error (.malformed (complaint text')))) ∧
    (∀ text v, Json.Spelled v.tokens text.toList → MachineConfig.Excess v →
      MachineConfig.ofText text complaint = .error (.malformed (complaint text))) ∧
    (∀ text v, Json.Spelled v.tokens text.toList → RunConfig.Excess v →
      RunConfig.ofText text complaint = .error (.malformed (complaint text))) := by
  refine ⟨?_, ?_, ?_, ?_, ?_, ?_⟩
  · intro text v c h hwritten
    rw [MachineConfig.ofText_eq, readChecked_of_spelled (c.ofJson?_of_written v hwritten) h]
  · intro text v c h hwritten
    rw [RunConfig.ofText_eq, readChecked_of_spelled (c.ofJson?_of_written v hwritten) h]
  · intro text text' v w h h' hchange
    rw [MachineConfig.ofText_eq, MachineConfig.ofText_eq]
    exact readChecked_congr (read_eq_of_eqvGen MachineConfig.ofJson?_of_change hchange) h h'
  · intro text text' v w h h' hchange
    rw [RunConfig.ofText_eq, RunConfig.ofText_eq]
    exact readChecked_congr (read_eq_of_eqvGen RunConfig.ofJson?_of_change hchange) h h'
  · intro text v h hexcess
    rw [MachineConfig.ofText_eq, readChecked_of_none (MachineConfig.ofJson?_of_excess hexcess) h]
  · intro text v h hexcess
    rw [RunConfig.ofText_eq, readChecked_of_none (RunConfig.ofJson?_of_excess hexcess) h]

theorem partial_documents_nested :
    MachineConfig.ofText (Json.ofFields [("loop_count", .ofNat 3), ("note", .array [.null]),
        ("limits", .ofFields [("max_recursion_depth", .ofNat 7)])]).compact =
      .ok { loopCount := 3, limits := { maxRecursionDepth := 7 } } := by
  have hnote : (Json.array [.null]).Sound := by simp [Json.Sound, Json.tokens, Json.itemTokens, Json.Token.Sound]
  have hlimits : LimitConfig.Written { maxRecursionDepth := 7 } (.ofFields [("max_recursion_depth", .ofNat 7)]) := {
    plain := Json.plain_ofFields (by decide)
    maxStackSize := .absent fun w h => by simpa using Json.holds_ofFields.1 h
    maxRecursionDepth := .given (Json.holds_ofFields.2 (List.mem_singleton_self _)) rfl }
  refine (partial_documents fun _ => "not a configuration document").1 _ _
    { loopCount := 3, limits := { maxRecursionDepth := 7 } } (Json.spelled_compact (Json.sound_ofFields ?_)) {
      plain := Json.plain_ofFields (by decide)
      jit := .absent fun w h => by simpa using Json.holds_ofFields.1 h
      loopCount := .given (Json.holds_ofFields.2 (by simp)) rfl
      initialStackSize := .absent fun w h => by simpa using Json.holds_ofFields.1 h
      debug := .absent fun w h => by simpa using Json.holds_ofFields.1 h
      verbose := .absent fun w h => by simpa using Json.holds_ofFields.1 h
      limits := .given (Json.holds_ofFields.2 (by simp)) hlimits }
  simp [hnote, Json.sound_ofNat, Json.sound_ofFields]

end MixedMode
