import Mathlib.Data.List.Duplicate
import Mathlib.Data.List.Perm.Basic
import MixedMode.Proofs.Documents
/-!
# Records — what a document gives of a record, and what makes no difference to it

A document gives a field a value as a member under the name of the field, or as an item in the field's place (`Holds`),
and that is what is read of it (`lookup_eq_some_iff`): a field comes to the value that is written of it, or to its
default if none is given (`Gives.get?_eq`).  Documents that are one `Change` apart give the same fields, up to a change
inside a value (`Change.fields?_alike`).  Of a document with a field given twice, or with more items than there are
fields, nothing is read (`Excess.fields?_eq_none`).
-/
namespace MixedMode.Json

variable {α : Type} {names : List String} {name : String} {key : List Char} {v w : Json}
  {members members' : List (List Char × Json)} {given given' : Given}

/-! ## The names of members -/

theorem named?_cons (hkey : Text.decode? key = some name.toList) (v : Json) (members : List (List Char × Json)) :
    named? ((key, v) :: members) = (named? members).map ((name, v) :: ·) := by
  simp only [named?, List.mapM_cons, hkey, Option.map_some, String.ofList_toList, Option.bind_eq_bind, Option.bind_some]
  rw [Option.map_eq_bind]
  rfl

/-- A member has its name decoded and its value kept. -/
def Names (member : List Char × Json) (field : String × Json) : Prop :=
  Text.decode? member.1 = some field.1.toList ∧ member.2 = field.2

theorem named?_eq_some : ∀ {members : List (List Char × Json)} {given : Given},
    named? members = some given ↔ List.Forall₂ Names members given
  | [], given => by simp [named?, eq_comm]
  | (key, v) :: members, given => by
    cases hkey : Text.decode? key with
    | none => simp [named?, hkey, Names, List.forall₂_cons_left_iff]
    | some chars =>
      have hname : Text.decode? key = some (String.ofList chars).toList := by rw [hkey, String.toList_ofList]
      rw [named?_cons hname, Option.map_eq_some_iff]
      simp only [named?_eq_some, List.forall₂_cons_left_iff, Names, hname]
      constructor
      · rintro ⟨rest, hrest, rfl⟩
        exact ⟨_, _, ⟨rfl, rfl⟩, hrest, rfl⟩
      · rintro ⟨⟨name, v'⟩, rest, ⟨hname, rfl⟩, hrest, rfl⟩
        exact ⟨rest, hrest, by simp [String.toList_inj.1 (Option.some.inj hname)]⟩

theorem named?_isSome (h : ∀ m ∈ members, ∃ name : String, Text.decode? m.1 = some name.toList) :
    ∃ given, named? members = some given := by
  induction members with
  | nil => exact ⟨[], rfl⟩
  | cons m members ih =>
    obtain ⟨⟨name, hname⟩, hrest⟩ := List.forall_mem_cons.1 h
    obtain ⟨given, hgiven⟩ := ih hrest
    exact ⟨(name, m.2) :: given, by rw [named?_cons hname, hgiven]; rfl⟩

theorem mem_named?_iff (hgiven : named? members = some given) :
    (name, w) ∈ given ↔ ∃ key, (key, w) ∈ members ∧ Text.decode? key = some name.toList := by
  have hnames := named?_eq_some.1 hgiven
  clear hgiven
  induction hnames with
  | nil => simp
  | @cons member field members given hnamed _ ih =>
    obtain ⟨key, v⟩ := member
    obtain ⟨k, v'⟩ := field
    obtain ⟨hkey, rfl⟩ : Text.decode? key = some k.toList ∧ v = v' := hnamed
    simp only [List.mem_cons, ih, or_and_right, exists_or, Prod.mk.injEq]
    refine or_congr_left ⟨?_, ?_⟩
    · rintro ⟨rfl, rfl⟩
      exact ⟨key, ⟨rfl, rfl⟩, hkey⟩
    · rintro ⟨_, ⟨rfl, rfl⟩, hname⟩
      rw [hkey, Option.some.injEq, String.toList_inj] at hname
      exact ⟨hname.symm, rfl⟩

theorem map_decode?_of_named? (hgiven : named? members = some given) :
    members.map (fun m => Text.decode? m.1) = (given.map Prod.fst).map fun name => some name.toList := by
  have hnames := named?_eq_some.1 hgiven
  clear hgiven
  induction hnames with
  | nil => rfl
  | cons hnamed _ ih => rw [List.map_cons, List.map_cons, List.map_cons, ih, hnamed.1]

theorem named?_perm (h : members.Perm members') (hgiven : named? members = some given) :
    ∃ given', named? members' = some given' ∧ given.Perm given' := by
  obtain ⟨given', hnames, hperm⟩ := List.perm_comp_forall₂ h.symm (named?_eq_some.1 hgiven)
  exact ⟨given', named?_eq_some.2 hnames, hperm.symm⟩

/-! ## The members that are fields -/

def known (names : List String) (given : Given) : Given := given.filter fun (name, _) => names.contains name

theorem known_cons_of_mem (h : name ∈ names) (v : Json) (given : Given) :
    known names ((name, v) :: given) = (name, v) :: known names given :=
  List.filter_cons_of_pos (List.contains_iff_mem.2 h)

theorem known_cons_of_notMem (h : name ∉ names) (v : Json) (given : Given) :
    known names ((name, v) :: given) = known names given :=
  List.filter_cons_of_neg fun hmem => h (List.contains_iff_mem.1 hmem)

theorem mem_known_iff (hname : name ∈ names) : (name, w) ∈ known names given ↔ (name, w) ∈ given := by
  rw [known, List.mem_filter, List.contains_iff_mem, and_iff_left hname]

theorem map_fst_known (names : List String) (given : Given) :
    (known names given).map Prod.fst = (given.map Prod.fst).filter fun name => names.contains name := by
  rw [List.filter_map]
  rfl

theorem fields?_object (hgiven : named? members = some given) :
    (object members).fields? names =
      if ((known names given).map Prod.fst).Nodup then some (known names given) else none := by
  rw [fields?, hgiven]
  rfl

theorem fields?_object_none (hgiven : named? members = none) : (object members).fields? names = none := by
  rw [fields?, hgiven]

/-- **An object gives its fields unless two members have the name of one.** -/
theorem nodup_known_iff (hgiven : named? members = some given) :
    ((known names given).map Prod.fst).Nodup ↔
      ∀ name ∈ names, ¬ List.Duplicate (some name.toList) (members.map fun m => Text.decode? m.1) := by
  have hinj : Function.Injective fun n : String => some n.toList := fun n m h => String.toList_inj.1 (Option.some.inj h)
  -- two members name a field just when it is twice among the names that were read
  have htwice : ∀ name : String, List.Duplicate (some name.toList) (members.map fun m => Text.decode? m.1) ↔
      [name, name].Sublist (given.map Prod.fst) := fun name => by
    rw [map_decode?_of_named? hgiven, List.duplicate_iff_sublist]
    constructor
    · intro h
      obtain ⟨twice, htwice, heq⟩ := List.sublist_map_iff.1 h
      obtain rfl : [name, name] = twice := List.map_injective_iff.2 hinj heq
      exact htwice
    · exact fun h => h.map fun n : String => some n.toList
  rw [List.nodup_iff_sublist, map_fst_known]
  constructor
  · intro h name hname hdup
    have hfilter := ((htwice name).1 hdup).filter fun n => names.contains n
    exact h name (by simpa [hname] using hfilter)
  · intro h name hsub
    have hname := List.contains_iff_mem.1 (List.mem_filter.1 (hsub.subset List.mem_cons_self)).2
    exact h name hname ((htwice name).2 (hsub.trans List.filter_sublist))

theorem map_fst_zip_sublist (names : List String) (items : List Json) :
    ((names.zip items).map Prod.fst).Sublist names := by
  rw [List.zip_eq_zip_take_min, List.map_fst_zip (by simp)]
  exact List.take_sublist _ _

/-! ## What a document gives -/

/-- The document gives the field this value, as a member or in the field's place of a list. -/
inductive Holds (names : List String) (name : String) (w : Json) : Json → Prop
  | member {key : List Char} {members : List (List Char × Json)} (h : (key, w) ∈ members)
      (hkey : Text.decode? key = some name.toList) : Holds names name w (.object members)
  | item {items : List Json} (h : (name, w) ∈ names.zip items) : Holds names name w (.array items)

/-- The document gives no field twice: an object whose keys are texts, no two of them the name of one field, or a list
of no more items than there are fields. -/
inductive Plain (names : List String) : Json → Prop
  | object {members : List (List Char × Json)}
      (hkeys : ∀ m ∈ members, ∃ name : String, Text.decode? m.1 = some name.toList)
      (honce : ∀ name ∈ names, ¬ List.Duplicate (some name.toList) (members.map fun m => Text.decode? m.1)) :
      Plain names (.object members)
  | array {items : List Json} (h : items.length ≤ names.length) : Plain names (.array items)

/-- The document gives a field twice, or more values than there are fields. -/
inductive Excess (names : List String) : Json → Prop
  | twice {name : String} {members : List (List Char × Json)} (hname : name ∈ names)
      (h : List.Duplicate (some name.toList) (members.map fun m => Text.decode? m.1)) : Excess names (.object members)
  | longer {items : List Json} (h : names.length < items.length) : Excess names (.array items)

/-- A field of a record is what the document writes of it, or its default if the document does not give the field. -/
inductive Gives (names : List String) (v : Json) (name : String) (writes : α → Json → Prop) (default : α) : α → Prop
  | given {x : α} {w : Json} (h : Holds names name w v) (hw : writes x w) : Gives names v name writes default x
  | absent (h : ∀ w, ¬ Holds names name w v) : Gives names v name writes default default

theorem Plain.fields? (h : Plain names v) : ∃ given, v.fields? names = some given := by
  cases h with
  | object hkeys honce =>
    obtain ⟨given, hgiven⟩ := named?_isSome hkeys
    exact ⟨_, by rw [fields?_object hgiven, if_pos ((nodup_known_iff hgiven).2 honce)]⟩
  | array h => exact ⟨_, by rw [Json.fields?, if_pos h]⟩

/-- **Nothing is read of a document that gives too much.** -/
theorem Excess.fields?_eq_none (h : Excess names v) : v.fields? names = none := by
  cases h with
  | @twice name members hname h =>
    cases hgiven : named? members with
    | none => exact fields?_object_none hgiven
    | some given => rw [fields?_object hgiven, if_neg fun hnodup => (nodup_known_iff hgiven).1 hnodup name hname h]
  | longer h => rw [Json.fields?, if_neg (Nat.not_le.2 h)]

/-- The fields that are read are the members of an object with their names, or the items of a list in their places. -/
theorem fields?_cases (hgiven : v.fields? names = some given) :
    (∃ members all, v = .object members ∧ named? members = some all ∧ (given.map Prod.fst).Nodup ∧
      given = known names all) ∨
    (∃ items, v = .array items ∧ items.length ≤ names.length ∧ given = names.zip items) := by
  unfold Json.fields? at hgiven
  split at hgiven
  · next members =>
    split at hgiven
    · next all hall =>
      dsimp only at hgiven
      split at hgiven
      · next hnodup =>
        cases hgiven
        exact .inl ⟨members, all, rfl, hall, hnodup, rfl⟩
      · cases hgiven
    · cases hgiven
  · next items =>
    split at hgiven
    · next hle =>
      cases hgiven
      exact .inr ⟨items, rfl, hle, rfl⟩
    · cases hgiven
  · cases hgiven

namespace Given

theorem lookup_of_mem (hnodup : (given.map Prod.fst).Nodup) (h : (name, v) ∈ given) : given.lookup name = some v := by
  induction given with
  | nil => cases h
  | cons field given ih =>
    obtain ⟨k, w⟩ := field
    obtain ⟨hfresh, hnodup⟩ := List.nodup_cons.1 hnodup
    rcases List.mem_cons.1 h with hhead | htail
    · cases hhead
      exact List.lookup_cons_self
    · have hne : name ≠ k := by
        rintro rfl
        exact hfresh (List.mem_map.2 ⟨_, htail, rfl⟩)
      rw [List.lookup_cons, beq_false_of_ne hne]
      exact ih hnodup htail

theorem lookup_eq_some_iff_mem (hnodup : (given.map Prod.fst).Nodup) :
    given.lookup name = some v ↔ (name, v) ∈ given := by
  refine ⟨fun h => ?_, lookup_of_mem hnodup⟩
  obtain ⟨before, after, hsplit, -⟩ := List.lookup_eq_some_iff.1 h
  rw [hsplit]
  exact List.mem_append_right _ List.mem_cons_self

theorem lookup_perm (h : given.Perm given') (hnodup : (given.map Prod.fst).Nodup) (name : String) :
    given.lookup name = given'.lookup name := by
  refine Option.ext fun v => ?_
  rw [lookup_eq_some_iff_mem hnodup, lookup_eq_some_iff_mem ((h.map Prod.fst).nodup_iff.1 hnodup), h.mem_iff]

end Given

/-- **The value that is read of a field is the one that the document gives it.** -/
theorem lookup_eq_some_iff (hnames : names.Nodup) (hgiven : v.fields? names = some given) (hname : name ∈ names) :
    given.lookup name = some w ↔ Holds names name w v := by
  rcases fields?_cases hgiven with ⟨members, all, rfl, hall, hnodup, rfl⟩ | ⟨items, rfl, -, rfl⟩
  · rw [Given.lookup_eq_some_iff_mem hnodup, mem_known_iff hname, mem_named?_iff hall]
    constructor
    · rintro ⟨key, h, hkey⟩
      exact .member h hkey
    · rintro ⟨h, hkey⟩
      exact ⟨_, h, hkey⟩
  · rw [Given.lookup_eq_some_iff_mem ((map_fst_zip_sublist names items).nodup hnames)]
    constructor
    · exact .item
    · rintro ⟨h⟩
      assumption

theorem Holds.get?_eq (hnames : names.Nodup) (hgiven : v.fields? names = some given) (hname : name ∈ names)
    (h : Holds names name w v) (read : Json → Option α) (default : α) : given.get? name read default = read w := by
  rw [Given.get?, (lookup_eq_some_iff hnames hgiven hname).2 h]

/-- **A field is read as what it comes to**, if its reader reads what is written of it. -/
theorem Gives.get?_eq {writes : α → Json → Prop} {default x : α} (hnames : names.Nodup)
    (hgiven : v.fields? names = some given) (hname : name ∈ names) (h : Gives names v name writes default x)
    {read : Json → Option α} (hread : ∀ x w, writes x w → read w = some x) :
    given.get? name read default = some x := by
  cases h with
  | given h hw => rw [h.get?_eq hnames hgiven hname, hread _ _ hw]
  | absent h =>
    have hlookup : given.lookup name = none :=
      Option.eq_none_iff_forall_ne_some.2 fun w hw => h w ((lookup_eq_some_iff hnames hgiven hname).1 hw)
    rw [Given.get?, hlookup]

/-! ## Documents with given members -/

section

variable {fields : List (String × Json)}

theorem holds_ofFields : Holds names name w (ofFields fields) ↔ (name, w) ∈ fields := by
  have hmem : (name, w) ∈ fields ↔ _ := mem_named?_iff (named?_encode fields)
  constructor
  · rintro ⟨h, hkey⟩
    exact hmem.2 ⟨_, h, hkey⟩
  · intro h
    obtain ⟨key, h, hkey⟩ := hmem.1 h
    exact .member h hkey

theorem plain_ofFields (hnodup : (fields.map Prod.fst).Nodup) : Plain names (ofFields fields) := by
  have hnamed := named?_encode fields
  refine .object (fun m hm => ?_) ((nodup_known_iff hnamed).1 ?_)
  · obtain ⟨⟨name, v⟩, -, rfl⟩ := List.mem_map.1 hm
    exact ⟨name, Text.decode?_encode _⟩
  · exact hnodup.sublist (List.filter_sublist.map Prod.fst)

end

/-! ## What makes no difference -/

/-- One change of a document that makes no difference to a record with these fields: another order of the members, one
more member without the name of a field, a change inside the value of a field, or the members of the first fields for
a list of their values. -/
inductive Change (names : List String) (inner : String → Json → Json → Prop) : Json → Json → Prop
  | order {members members' : List (List Char × Json)} (h : members.Perm members') :
      Change names inner (.object members) (.object members')
  | other {key : List Char} {name : String} (v : Json) (members : List (List Char × Json))
      (hkey : Text.decode? key = some name.toList) (hname : name ∉ names) :
      Change names inner (.object members) (.object ((key, v) :: members))
  | inside {key : List Char} {name : String} {v w : Json} (members : List (List Char × Json))
      (hkey : Text.decode? key = some name.toList) (h : inner name v w) :
      Change names inner (.object ((key, v) :: members)) (.object ((key, w) :: members))
  | list {items : List Json} (h : items.length ≤ names.length) :
      Change names inner (.array items) (ofFields (names.zip items))

variable {inner : String → Json → Json → Prop}

namespace Given

/-- Each field has the same value in both, up to a change inside it. -/
def Alike (inner : String → Json → Json → Prop) (given given' : Given) : Prop :=
  ∀ name, Option.Rel (fun v w => v = w ∨ inner name v w) (given.lookup name) (given'.lookup name)

theorem Alike.of_lookup (h : ∀ name, given.lookup name = given'.lookup name) : given.Alike inner given' := by
  intro name
  rw [h name]
  cases given'.lookup name with
  | none => exact .none
  | some v => exact .some (.inl rfl)

theorem Alike.cons (hv : v = w ∨ inner name v w) (given : Given) :
    Alike inner ((name, v) :: given) ((name, w) :: given) := by
  intro k
  rw [List.lookup_cons, List.lookup_cons]
  by_cases hk : k = name
  · subst hk
    rw [beq_self_eq_true]
    exact .some hv
  · rw [beq_false_of_ne hk]
    exact Alike.of_lookup (fun _ => rfl) k

theorem Alike.get?_eq (h : given.Alike inner given') {read : Json → Option α} {default : α}
    (hread : ∀ v w, inner name v w → read v = read w) :
    given.get? name read default = given'.get? name read default := by
  have hrel := h name
  unfold get?
  generalize given.lookup name = o at hrel ⊢
  generalize given'.lookup name = o' at hrel ⊢
  cases hrel with
  | none => rfl
  | @some v w hvw =>
    rcases hvw with rfl | hvw
    · rfl
    · exact hread v w hvw

end Given

namespace Change

/-- The fields among these members have the same names, and alike values unless two have one name. -/
def KnownAlike (names : List String) (inner : String → Json → Json → Prop) (given given' : Given) : Prop :=
  ((known names given).map Prod.fst).Perm ((known names given').map Prod.fst) ∧
    (((known names given).map Prod.fst).Nodup → (known names given).Alike inner (known names given'))

theorem knownAlike_of_eq (h : known names given = known names given') : KnownAlike names inner given given' := by
  rw [KnownAlike, h]
  exact ⟨.refl _, fun _ => .of_lookup fun _ => rfl⟩

theorem object_alike {all all' : Option Given} (hall : named? members = all) (hall' : named? members' = all')
    (h : Option.Rel (KnownAlike names inner) all all') :
    Option.Rel (Given.Alike inner) ((object members).fields? names) ((object members').fields? names) := by
  cases h with
  | none =>
    rw [fields?_object_none hall, fields?_object_none hall']
    exact .none
  | @some given given' h =>
    obtain ⟨hperm, halike⟩ := h
    rw [fields?_object hall, fields?_object hall']
    by_cases hnodup : ((known names given).map Prod.fst).Nodup
    · rw [if_pos hnodup, if_pos (hperm.nodup_iff.1 hnodup)]
      exact .some (halike hnodup)
    · rw [if_neg hnodup, if_neg (hnodup ∘ hperm.nodup_iff.2)]
      exact .none

/-- **A change leaves the fields that are read**, up to a change inside one of them; or none are read of both. -/
theorem fields?_alike (hnames : names.Nodup) (h : Change names inner v w) :
    Option.Rel (Given.Alike inner) (v.fields? names) (w.fields? names) := by
  cases h with
  | @order members members' h =>
    refine object_alike rfl rfl ?_
    cases hall : named? members with
    | none =>
      -- a key that is no text is one in any order
      have hall' : named? members' = none := by
        refine Option.eq_none_iff_forall_ne_some.2 fun given' hgiven' => ?_
        obtain ⟨given, hsome, -⟩ := named?_perm h.symm hgiven'
        rw [hall] at hsome
        cases hsome
      rw [hall']
      exact .none
    | some given =>
      obtain ⟨given', hall', hperm⟩ := named?_perm h hall
      have hknown : (known names given).Perm (known names given') := hperm.filter _
      rw [hall']
      exact .some ⟨hknown.map Prod.fst, fun hnodup => .of_lookup (Given.lookup_perm hknown hnodup)⟩
  | @other key name v members hkey hname =>
    refine object_alike rfl (named?_cons hkey v members) ?_
    cases named? members with
    | none => exact .none
    | some given => exact .some (knownAlike_of_eq (known_cons_of_notMem hname v given).symm)
  | @inside key name v w members hkey h =>
    refine object_alike (named?_cons hkey v members) (named?_cons hkey w members) ?_
    cases named? members with
    | none => exact .none
    | some given =>
      refine .some ?_
      by_cases hname : name ∈ names
      · rw [KnownAlike, known_cons_of_mem hname, known_cons_of_mem hname]
        exact ⟨.refl _, fun _ => .cons (.inr h) _⟩
      · exact knownAlike_of_eq (by rw [known_cons_of_notMem hname, known_cons_of_notMem hname])
  | @list items h =>
    have hsub := map_fst_zip_sublist names items
    rw [fields?_ofFields (hsub.nodup hnames) fun name hname => hsub.subset hname, Json.fields?, if_pos h]
    exact .some (.of_lookup fun _ => rfl)

/-- A record that is made of alike fields alike is the same after a change. -/
theorem bind_eq {C : Type} {build : Given → Option C} (hnames : names.Nodup) (h : Change names inner v w)
    (hbuild : ∀ given given' : Given, given.Alike inner given' → build given = build given') :
    (v.fields? names).bind build = (w.fields? names).bind build := by
  have halike := h.fields?_alike hnames
  generalize v.fields? names = given at halike ⊢
  generalize w.fields? names = given' at halike ⊢
  cases halike with
  | none => rfl
  | some halike => exact hbuild _ _ halike

end Change
end MixedMode.Json
