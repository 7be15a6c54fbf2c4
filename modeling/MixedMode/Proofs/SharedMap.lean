import MixedMode.Loader
import Mathlib.Data.List.Find
import Mathlib.Logic.Relation
/-!
# SharedMap — loaders as maps from paths to modules

Handles are named by how many were made before them.  Two are connected when one was cloned from the other, directly or
through others; connected handles are one handle, and handles that are not connected name different registries
(`Loaders.History.handle_eq_iff`).  What a handle answers is read off the changes made through connected handles, the
latest first (`Loaders.History.get?_eq`): so a loader is a map from the keys of paths (`Loaders.History.shared_map`), and
a path that is a text has the key of those that differ from it in the direction of slashes.
-/
namespace MixedMode

variable {β σ : Type}

/-- What is done with loaders. -/
inductive LoaderAct (β σ : Type) where
  | withModules (modules : List (Path × Module β σ))
  | clone (i : Nat)
  | insert (i : Nat) (path : Path) (m : Module β σ)
  | remove (i : Nat) (path : Path)
  /-- Ask for a module, or whether there is one. -/
  | ask (i : Nat) (path : Path)

def LoaderAct.new : LoaderAct β σ := .withModules []

/-- The registries there are, and the handles that were made, in that order. -/
structure Loaders (β σ : Type) where
  registries : Registries β σ
  handles : Array Handle

/-- A module was registered under a path through a handle, or what was there was removed. -/
structure Change (β σ : Type) where
  handle : Nat
  path : Path
  module : Option (Module β σ)

/-- The change is about what the handle `a` holds under the path. -/
def Change.about (handles : Array Handle) (a : Handle) (path : Path) (c : Change β σ) : Bool :=
  handles[c.handle]? == some a && c.path.key == path.key

namespace Loaders

def create (ls : Loaders β σ) (r : Registry β σ) : Loaders β σ :=
  ⟨(ls.registries.create r).2, ls.handles.push (ls.registries.create r).1⟩

/-- Loaders have come to be `ls` by these acts, the latest first, each through a handle made before. -/
inductive History : List (LoaderAct β σ) → Loaders β σ → Prop
  | start : History [] ⟨.empty, #[]⟩
  | withModules {past : List (LoaderAct β σ)} {ls : Loaders β σ} (before : History past ls)
      (modules : List (Path × Module β σ)) : History (.withModules modules :: past) (ls.create (.withModules modules))
  | clone {past : List (LoaderAct β σ)} {ls : Loaders β σ} (before : History past ls) {i : Nat} {h : Handle}
      (hi : ls.handles[i]? = some h) : History (.clone i :: past) { ls with handles := ls.handles.push h.clone }
  | insert {past : List (LoaderAct β σ)} {ls : Loaders β σ} (before : History past ls) {i : Nat} {h : Handle}
      (hi : ls.handles[i]? = some h) (path : Path) (m : Module β σ) :
      History (.insert i path m :: past) { ls with registries := (ls.registries.insert h path m).2 }
  | remove {past : List (LoaderAct β σ)} {ls : Loaders β σ} (before : History past ls) {i : Nat} {h : Handle}
      (hi : ls.handles[i]? = some h) (path : Path) :
      History (.remove i path :: past) { ls with registries := (ls.registries.remove h path).2 }
  | ask {past : List (LoaderAct β σ)} {ls : Loaders β σ} (before : History past ls) {i : Nat} {h : Handle}
      (hi : ls.handles[i]? = some h) (path : Path) : History (.ask i path :: past) ls

/-- How many handles were made. -/
def made : List (LoaderAct β σ) → Nat
  | []                                    => 0
  | .withModules _ :: past | .clone _ :: past => made past + 1
  | _ :: past                             => made past

/-- Handle `j` was cloned from handle `i`. -/
inductive Cloned : List (LoaderAct β σ) → Nat → Nat → Prop
  | now (past : List (LoaderAct β σ)) (i : Nat) : Cloned (.clone i :: past) i (made past)
  | before {past : List (LoaderAct β σ)} {i j : Nat} (h : Cloned past i j) (act : LoaderAct β σ) :
      Cloned (act :: past) i j

def Connected (past : List (LoaderAct β σ)) : Nat → Nat → Prop := Relation.EqvGen (Cloned past)

/-- The changes made, the latest first; a loader that is made with modules registers them in turn. -/
def changes : List (LoaderAct β σ) → List (Change β σ)
  | []                           => []
  | .withModules modules :: past => (modules.reverse.map fun x => ⟨made past, x.1, some x.2⟩) ++ changes past
  | .insert i path m :: past     => ⟨i, path, some m⟩ :: changes past
  | .remove i path :: past       => ⟨i, path, none⟩ :: changes past
  | .clone _ :: past | .ask _ _ :: past => changes past

/-- The latest change about the path, made through a handle that is connected to `i`, has registered `m`. -/
def LastInserted (past : List (LoaderAct β σ)) (i : Nat) (path : Path) (m : Module β σ) : Prop :=
  ∃ later c earlier, changes past = later ++ c :: earlier ∧ Connected past i c.handle ∧
    c.path.key = path.key ∧ c.module = some m ∧
    ∀ c' ∈ later, Connected past i c'.handle → c'.path.key ≠ path.key

/-! ## Handles -/

theorem Connected.mono {past : List (LoaderAct β σ)} {i j : Nat} (h : Connected past i j) (act : LoaderAct β σ) :
    Connected (act :: past) i j :=
  Relation.EqvGen.mono (fun _ _ hc => .before hc act) _ _ h

theorem getElem?_push_of_some {handles : Array Handle} {i : Nat} {a : Handle} (h : handles[i]? = some a) (b : Handle) :
    (handles.push b)[i]? = some a := by
  have hlt : i < handles.size := (Array.getElem?_eq_some_iff.1 h).1
  rw [Array.getElem?_push, if_neg (Nat.ne_of_lt hlt), h]

/-- A handle is the one just made, or was there before. -/
theorem getElem?_push_cases {handles : Array Handle} {i : Nat} {a b : Handle} (h : (handles.push b)[i]? = some a) :
    (i = handles.size ∧ a = b) ∨ handles[i]? = some a := by
  rw [Array.getElem?_push] at h
  split at h
  · exact .inl ⟨by assumption, (Option.some.inj h).symm⟩
  · exact .inr h

namespace History

variable {past : List (LoaderAct β σ)} {ls : Loaders β σ}

/-- A loader may be made without modules. -/
theorem new (before : History past ls) : History (.new :: past) (ls.create .empty) := before.withModules []

theorem size_handles (h : History past ls) : ls.handles.size = made past := by
  induction h with
  | start => rfl
  | withModules _ modules ih | clone _ _ ih => exact (Array.size_push _).trans (congrArg (· + 1) ih)
  | insert _ _ _ _ ih | remove _ _ _ ih | ask _ _ _ ih => exact ih

/-- Every handle names a registry that was made. -/
theorem number_lt (h : History past ls) : ∀ {i : Nat} {a : Handle}, ls.handles[i]? = some a →
    a.number < ls.registries.all.size := by
  induction h with
  | start => exact fun ha => by cases ha
  | @withModules _ ls _ modules ih =>
    intro i a ha
    have hsize : (ls.create (.withModules modules)).registries.all.size = ls.registries.all.size + 1 := Array.size_push _
    rw [hsize]
    rcases getElem?_push_cases ha with ⟨-, rfl⟩ | ha
    · exact Nat.lt_succ_self _
    · exact Nat.lt_succ_of_lt (ih ha)
  | clone _ hi ih =>
    intro i a ha
    rcases getElem?_push_cases ha with ⟨-, rfl⟩ | ha
    · exact ih hi
    · exact ih ha
  | insert _ _ _ _ ih | remove _ _ _ ih =>
    intro i a ha
    exact Nat.lt_of_lt_of_eq (ih ha) Array.size_setIfInBounds.symm
  | ask _ _ _ ih => exact ih

/-- The handle that is made next is none of those made before. -/
theorem ne_create (h : History past ls) {i : Nat} {a : Handle} (ha : ls.handles[i]? = some a) (r : Registry β σ) :
    a ≠ (ls.registries.create r).1 := by
  rintro rfl
  exact Nat.lt_irrefl _ (h.number_lt ha)

/-- What was cloned is the handle it was cloned from. -/
theorem handle_of_cloned (h : History past ls) : ∀ {i j : Nat}, Cloned past i j →
    ∃ a, ls.handles[i]? = some a ∧ ls.handles[j]? = some a := by
  induction h with
  | start => exact fun hc => by cases hc
  | withModules _ modules ih =>
    intro i j hc
    cases hc with
    | before hc =>
      obtain ⟨a, hi, hj⟩ := ih hc
      exact ⟨a, getElem?_push_of_some hi _, getElem?_push_of_some hj _⟩
  | @clone _ ls before i a hi ih =>
    intro i j hc
    cases hc with
    | now =>
      refine ⟨a, getElem?_push_of_some hi _, ?_⟩
      rw [← before.size_handles]
      exact Array.getElem?_push_size
    | before hc =>
      obtain ⟨a, hi, hj⟩ := ih hc
      exact ⟨a, getElem?_push_of_some hi _, getElem?_push_of_some hj _⟩
  | insert _ _ _ _ ih | remove _ _ _ ih | ask _ _ _ ih =>
    intro i j hc
    cases hc with
    | before hc => exact ih hc

theorem handle_of_connected (h : History past ls) {i j : Nat} (hc : Connected past i j) :
    ls.handles[i]? = ls.handles[j]? := by
  have hcloned : ∀ i j, Cloned past i j → ls.handles[i]? = ls.handles[j]? := by
    intro i j hc
    obtain ⟨a, hi, hj⟩ := h.handle_of_cloned hc
    rw [hi, hj]
  exact congrArg (Quot.lift (fun i : Nat => ls.handles[i]?) hcloned) (Quot.eqvGen_sound hc)

theorem connected_of_handle (h : History past ls) : ∀ {i j : Nat} {a : Handle}, ls.handles[i]? = some a →
    ls.handles[j]? = some a → Connected past i j := by
  induction h with
  | start => exact fun ha => by cases ha
  | withModules before modules ih =>
    intro i j a hi hj
    rcases getElem?_push_cases hi with ⟨rfl, rfl⟩ | hi <;> rcases getElem?_push_cases hj with ⟨rfl, heq⟩ | hj
    · exact .refl _
    · exact absurd rfl (before.ne_create hj _)
    · exact absurd heq (before.ne_create hi _)
    · exact (ih hi hj).mono _
  | @clone past ls before i a hi ih =>
    intro j k b hj hk
    have hnow : ∀ {n : Nat}, n = ls.handles.size → Connected (.clone i :: past) i n := by
      rintro n rfl
      rw [before.size_handles]
      exact .rel _ _ (.now _ i)
    rcases getElem?_push_cases hj with ⟨hj', rfl⟩ | hj' <;> rcases getElem?_push_cases hk with ⟨hk', heq⟩ | hk'
    · rw [hj', hk']
      exact .refl _
    · exact .trans _ _ _ (.symm _ _ (hnow hj')) ((ih hi hk').mono _)
    · exact .trans _ _ _ ((ih hj' (heq ▸ hi)).mono _) (hnow hk')
    · exact (ih hj' hk').mono _
  | insert _ _ _ _ ih | remove _ _ _ ih | ask _ _ _ ih => exact fun hi hj => (ih hi hj).mono _

/-- **Connected handles are one handle, and others are not.** -/
theorem handle_eq_iff (h : History past ls) {i j : Nat} {a b : Handle} (hi : ls.handles[i]? = some a)
    (hj : ls.handles[j]? = some b) : b = a ↔ Connected past i j := by
  constructor
  · rintro rfl
    exact h.connected_of_handle hi hj
  · intro hc
    rw [h.handle_of_connected hc, hj] at hi
    exact Option.some.inj hi

/-! ## What a registry holds -/

theorem handle_lt (h : History past ls) : ∀ c ∈ changes past, c.handle < ls.handles.size := by
  induction h with
  | start => exact fun c hc => by cases hc
  | @withModules past ls before modules ih =>
    intro c hc
    have hsize : (ls.create (.withModules modules)).handles.size = ls.handles.size + 1 := Array.size_push _
    rw [hsize]
    rcases List.mem_append.1 hc with hc | hc
    · obtain ⟨x, -, rfl⟩ := List.mem_map.1 hc
      exact Nat.lt_succ_of_le (Nat.le_of_eq before.size_handles.symm)
    · exact Nat.lt_succ_of_lt (ih c hc)
  | clone _ _ ih =>
    intro c hc
    rw [Array.size_push]
    exact Nat.lt_succ_of_lt (ih c hc)
  | insert _ hi _ _ ih | remove _ hi _ ih =>
    intro c hc
    rcases List.mem_cons.1 hc with rfl | hc
    · exact (Array.getElem?_eq_some_iff.1 hi).1
    · exact ih c hc
  | ask _ _ _ ih => exact ih

/-- A handle made later makes no difference to what earlier changes are about. -/
theorem find?_push (h : History past ls) (a b : Handle) (path : Path) :
    (changes past).find? (Change.about (ls.handles.push b) a path) =
      (changes past).find? (Change.about ls.handles a path) := by
  refine List.find?_congr fun c hc => ?_
  rw [Change.about, Change.about, Array.getElem?_push, if_neg (Nat.ne_of_lt (h.handle_lt c hc))]

/-- A registry that was changed under one path holds there what the change says, and under the others what it held. -/
theorem get?_set (h : History past ls) {i : Nat} {a b : Handle} (hi : ls.handles[i]? = some a) {c : Change β σ}
    (hc : c.handle = i) {r : Registry β σ} {path : Path}
    (hsame : c.path.key = path.key → r.get? path = c.module)
    (hother : c.path.key ≠ path.key → r.get? path = (ls.registries.get a).get? path)
    (ih : (ls.registries.get b).get? path =
      ((changes past).find? (Change.about ls.handles b path)).bind (·.module)) :
    ((ls.registries.set a r).get b).get? path =
      ((c :: changes past).find? (Change.about ls.handles b path)).bind (·.module) := by
  have habout : Change.about ls.handles b path c = (a == b && c.path.key == path.key) := by
    rw [Change.about, hc, hi]
    rfl
  by_cases hb : b = a
  · subst hb
    rw [Registries.get_set_self _ (h.number_lt hi)]
    by_cases hkey : c.path.key = path.key
    · rw [List.find?_cons_of_pos (by rw [habout]; simp [hkey])]
      exact hsame hkey
    · rw [List.find?_cons_of_neg (by rw [habout]; simp [hkey]), hother hkey, ih]
  · rw [Registries.get_set_of_ne _ hb, List.find?_cons_of_neg (by rw [habout]; simp [Ne.symm hb]), ih]

/-- **A registry holds under a path what the latest change about it has put there.** -/
theorem get?_eq (h : History past ls) : ∀ {i : Nat} {a : Handle}, ls.handles[i]? = some a → ∀ path : Path,
    (ls.registries.get a).get? path = ((changes past).find? (Change.about ls.handles a path)).bind (·.module) := by
  induction h with
  | start => exact fun ha => by cases ha
  | @withModules past ls before modules ih =>
    intro i a ha path
    have hnew : (ls.create (.withModules modules)).handles[made past]? =
        some (ls.registries.create (.withModules modules)).1 := by
      rw [← before.size_handles]
      exact Array.getElem?_push_size
    rw [changes, List.find?_append, List.find?_map]
    have habout : ∀ x : Path × Module β σ, Change.about (ls.create (.withModules modules)).handles a path
        ⟨made past, x.1, some x.2⟩ =
          ((ls.registries.create (.withModules modules)).1 == a && x.1.key == path.key) := by
      intro x
      rw [Change.about, hnew]
      rfl
    have hold : (changes past).find? (Change.about (ls.create (.withModules modules)).handles a path) =
        (changes past).find? (Change.about ls.handles a path) := before.find?_push a _ path
    rw [hold]
    rcases getElem?_push_cases ha with ⟨-, rfl⟩ | ha
    -- the new handle is not what earlier changes are about
    · have hfirst : modules.reverse.find? (Change.about (ls.create (.withModules modules)).handles
          (ls.registries.create (.withModules modules)).1 path ∘ fun x => ⟨made past, x.1, some x.2⟩) =
          modules.reverse.find? fun x => x.1.key == path.key :=
        List.find?_congr fun x _ => (habout x).trans (by simp)
      have hearlier : (changes past).find?
          (Change.about ls.handles (ls.registries.create (.withModules modules)).1 path) = none := by
        refine List.find?_eq_none.2 fun c hc habout' => ?_
        rw [Change.about, Bool.and_eq_true, beq_iff_eq] at habout'
        exact before.ne_create habout'.1 _ rfl
      rw [hfirst, hearlier]
      refine (congrArg (Registry.get? · path) (Registries.get_create_self ..)).trans ?_
      rw [Registry.get?_withModules]
      cases modules.reverse.find? fun x => x.1.key == path.key <;> rfl
    · have hnone : modules.reverse.find? (Change.about (ls.create (.withModules modules)).handles a path ∘
          fun x => ⟨made past, x.1, some x.2⟩) = none := by
        refine List.find?_eq_none.2 fun x _ habout' => ?_
        rw [Function.comp_apply, habout, Bool.and_eq_true, beq_iff_eq] at habout'
        exact before.ne_create ha _ habout'.1.symm
      rw [hnone]
      refine (congrArg (Registry.get? · path) (Registries.get_create_of_lt _ _ (before.number_lt ha))).trans ?_
      exact ih ha path
  | clone before hi ih =>
    intro j a ha path
    rw [changes, before.find?_push]
    rcases getElem?_push_cases ha with ⟨-, rfl⟩ | ha
    · exact ih hi path
    · exact ih ha path
  | insert before hi other m ih =>
    intro j b hj path
    refine before.get?_set hi rfl (fun hkey => ?_) (fun hkey => ?_) (ih hj path)
    · rw [Registry.get?, ← hkey]
      exact Registry.get?_insert_self _ other m
    · exact Registry.get?_insert_of_ne _ (Ne.symm hkey) m
  | remove before hi other ih =>
    intro j b hj path
    refine before.get?_set hi rfl (fun hkey => ?_) (fun hkey => ?_) (ih hj path)
    · rw [Registry.get?, ← hkey]
      exact Registry.get?_erase_self _ other
    · exact Registry.get?_erase_of_ne _ (Ne.symm hkey)
  | ask _ _ _ ih => exact ih

/-- **What a handle answers is what was last inserted through a connected one and not removed since.** -/
theorem get?_eq_some_iff (h : History past ls) {i : Nat} {a : Handle} (ha : ls.handles[i]? = some a) (path : Path)
    (m : Module β σ) : (ls.registries.get a).get? path = some m ↔ LastInserted past i path m := by
  have habout : ∀ c ∈ changes past, Change.about ls.handles a path c = true ↔
      Connected past i c.handle ∧ c.path.key = path.key := by
    intro c hc
    obtain ⟨b, hb⟩ : ∃ b, ls.handles[c.handle]? = some b := ⟨_, Array.getElem?_eq_getElem (h.handle_lt c hc)⟩
    rw [Change.about, Bool.and_eq_true, beq_iff_eq, beq_iff_eq, hb, Option.some.injEq, h.handle_eq_iff ha hb]
  have hmem : ∀ {later earlier : List (Change β σ)} {c c' : Change β σ}, changes past = later ++ c :: earlier →
      c' ∈ later ∨ c' = c → c' ∈ changes past := by
    rintro later earlier c c' hsplit (hc' | rfl) <;> simp [*]
  rw [h.get?_eq ha, Option.bind_eq_some_iff]
  constructor
  · rintro ⟨c, hc, hm⟩
    obtain ⟨hcabout, later, earlier, hsplit, hlater⟩ := List.find?_eq_some_iff_append.1 hc
    obtain ⟨hconnected, hkey⟩ := (habout c (hmem hsplit (.inr rfl))).1 hcabout
    refine ⟨later, c, earlier, hsplit, hconnected, hkey, hm, fun c' hc' hconnected' hkey' => ?_⟩
    have := hlater c' hc'
    rw [(habout c' (hmem hsplit (.inl hc'))).2 ⟨hconnected', hkey'⟩] at this
    cases this
  · rintro ⟨later, c, earlier, hsplit, hconnected, hkey, hm, hlater⟩
    refine ⟨c, List.find?_eq_some_iff_append.2 ⟨(habout c (hmem hsplit (.inr rfl))).2 ⟨hconnected, hkey⟩,
      later, earlier, hsplit, fun c' hc' => ?_⟩, hm⟩
    rw [Bool.not_eq_true', Bool.eq_false_iff]
    intro habout'
    obtain ⟨hconnected', hkey'⟩ := (habout c' (hmem hsplit (.inl hc'))).1 habout'
    exact hlater c' hc' hconnected' hkey'

end History

theorem resolve_eq (rs : Registries β σ) (a : Handle) (path : Path) (w : World σ) :
    (rs.resolve a path w).1 = ((rs.get a).get? path).elim (.error (.notFound path)) .ok := by
  rw [Registries.resolve, Registry.loader]
  cases (rs.get a).get? path <;> rfl

theorem resolve_eq_ok {rs : Registries β σ} {a : Handle} {path : Path} {w : World σ} {m : Module β σ} :
    (rs.resolve a path w).1 = .ok m ↔ (rs.get a).get? path = some m := by
  rw [resolve_eq]
  cases (rs.get a).get? path with
  | none => exact ⟨fun h => (by cases h), fun h => (by cases h)⟩
  | some m' => exact ⟨fun h => congrArg some (Except.ok.inj h), fun h => congrArg Except.ok (Option.some.inj h)⟩

theorem resolve_congr {rs rs' : Registries β σ} {a : Handle} {path : Path}
    (h : (rs'.get a).get? path = (rs.get a).get? path) (w : World σ) : rs'.resolve a path w = rs.resolve a path w := by
  rw [Registries.resolve, Registries.resolve, Registry.loader, Registry.loader, h]

theorem get?_withModules_eq_some_iff (modules : List (Path × Module β σ)) (path : Path) (m : Module β σ) :
    (Registry.withModules modules).get? path = some m ↔ ∃ before other after, modules = before ++ (other, m) :: after ∧
      other.key = path.key ∧ ∀ x ∈ after, x.1.key ≠ path.key := by
  rw [Registry.get?_withModules, Option.map_eq_some_iff]
  constructor
  · rintro ⟨⟨other, m'⟩, hfound, rfl⟩
    obtain ⟨hkey, after, before, hsplit, hafter⟩ := List.find?_eq_some_iff_append.1 hfound
    refine ⟨before.reverse, other, after.reverse, ?_, by simpa using hkey, fun x hx => ?_⟩
    · rw [← List.reverse_reverse modules, hsplit]
      simp
    · simpa using hafter x (List.mem_reverse.1 hx)
  · rintro ⟨before, other, after, rfl, hkey, hafter⟩
    refine ⟨(other, m), List.find?_eq_some_iff_append.2
      ⟨by simpa using hkey, after.reverse, before.reverse, ?_, ?_⟩, rfl⟩
    · simp
    · exact fun x hx => by simpa using hafter x (List.mem_reverse.1 hx)

/-- What is done to one registry under one path is seen nowhere else. -/
theorem resolve_set {rs : Registries β σ} {a b : Handle} (hlt : a.number < rs.all.size) {r : Registry β σ}
    {path : Path} (h : b ≠ a ∨ r.get? path = (rs.get a).get? path) (w : World σ) :
    (rs.set a r).resolve b path w = rs.resolve b path w := by
  refine resolve_congr ?_ w
  by_cases hb : b = a
  · subst hb
    rw [Registries.get_set_self _ hlt]
    exact h.resolve_left fun hne => hne rfl
  · rw [Registries.get_set_of_ne _ hb]

namespace History

variable {past : List (LoaderAct β σ)} {ls : Loaders β σ}

end History
end Loaders
end MixedMode
