import MixedMode.Machine
/-!
# Loaders — from a path to a module

A loader answers a path with a module or with the reason there is none; asking may be logged and may change what is
kept outside, such as a count of the questions.  A `Registry` holds modules under the keys of their paths, where a
backslash is as good as a slash.  Handles name registries: two handles made from one another name the same one, and
what is done through either is seen through both.
-/
namespace MixedMode

variable {β σ : Type}

/-- Turns a path into a module. -/
abbrev Loader (β σ : Type) := Path → World σ → Except LoadError (Module β σ) × World σ

/-- Modules under the keys of their paths; no key occurs twice. -/
structure Registry (β σ : Type) where
  entries : List (String × Module β σ)

namespace Registry

def empty : Registry β σ := ⟨[]⟩

instance : Inhabited (Registry β σ) := ⟨empty⟩

def get? (r : Registry β σ) (path : Path) : Option (Module β σ) := r.entries.lookup path.key

def contains (r : Registry β σ) (path : Path) : Bool := (r.get? path).isSome

def erase (r : Registry β σ) (path : Path) : Registry β σ :=
  ⟨r.entries.filter fun (key, _) => key != path.key⟩

/-- Register a module under a path, in place of any other. -/
def insert (r : Registry β σ) (path : Path) (m : Module β σ) : Registry β σ :=
  ⟨(path.key, m) :: (r.erase path).entries⟩

/-- Register modules in turn. -/
def withModules (modules : List (Path × Module β σ)) : Registry β σ :=
  modules.foldl (fun r (path, m) => r.insert path m) empty

/-- Register modules in turn under paths that texts name. -/
def ofList (modules : List (String × Module β σ)) : Registry β σ :=
  withModules (Path.named modules)

/-- Look a path up as a loader does: the path of the error is as it was given. -/
def loader (r : Registry β σ) : Loader β σ := fun path w =>
  match r.get? path with
  | none   => (.error (.notFound path), w)
  | some m => (.ok m, w.log (.resolved path.key m.size m.compiledCount))

theorem lookup_filter_ne {α : Type} (key other : String) (h : other ≠ key) : ∀ entries : List (String × α),
    (entries.filter fun (k, _) => k != key).lookup other = entries.lookup other
  | [] => rfl
  | (k, a) :: entries => by
    have ih := lookup_filter_ne key other h entries
    by_cases hk : k = key
    · subst hk
      have hne : (other == k) = false := by simpa using h
      simp [List.lookup_cons, hne, ih]
    · cases ho : other == k <;> simp [List.lookup_cons, hk, ho, ih]

theorem lookup_filter_self {α : Type} (key : String) : ∀ entries : List (String × α),
    (entries.filter fun (k, _) => k != key).lookup key = none
  | [] => rfl
  | (k, a) :: entries => by
    have ih := lookup_filter_self key entries
    by_cases hk : k = key
    · simp [hk, ih]
    · have hne : (key == k) = false := by simpa using Ne.symm hk
      simp [List.lookup_cons, hk, hne, ih]

theorem get?_erase_self (r : Registry β σ) (path : Path) : (r.erase path).get? path = none :=
  lookup_filter_self ..

theorem get?_erase_of_ne (r : Registry β σ) {path other : Path} (h : other.key ≠ path.key) :
    (r.erase path).get? other = r.get? other :=
  lookup_filter_ne _ _ h _

theorem get?_insert_self (r : Registry β σ) (path : Path) (m : Module β σ) :
    (r.insert path m).get? path = some m := by
  simp [get?, insert]

theorem get?_insert_of_ne (r : Registry β σ) {path other : Path} (h : other.key ≠ path.key)
    (m : Module β σ) : (r.insert path m).get? other = r.get? other := by
  have hne : (other.key == path.key) = false := by simpa using h
  simp only [get?, insert, List.lookup_cons, hne]
  exact get?_erase_of_ne r h

/-- Of modules that are inserted in turn, the last under a key is the one that is held. -/
theorem get?_foldl_insert (path : Path) : ∀ (modules : List (Path × Module β σ)) (r : Registry β σ),
    (modules.foldl (fun r x => r.insert x.1 x.2) r).get? path =
      ((modules.reverse.find? fun x => x.1.key == path.key).map (·.2)).or (r.get? path)
  | [], _ => rfl
  | x :: modules, r => by
    rw [List.foldl_cons, get?_foldl_insert path modules, List.reverse_cons, List.find?_append]
    cases modules.reverse.find? fun x => x.1.key == path.key with
    | some found => rfl
    | none =>
      by_cases hkey : x.1.key = path.key
      · have hget : (r.insert x.1 x.2).get? path = some x.2 := by
          rw [get?, ← hkey]
          exact get?_insert_self r x.1 x.2
        simp [hkey, hget]
      · simp [hkey, get?_insert_of_ne r (Ne.symm hkey)]

theorem get?_withModules (modules : List (Path × Module β σ)) (path : Path) :
    (withModules modules).get? path = (modules.reverse.find? fun x => x.1.key == path.key).map (·.2) :=
  (get?_foldl_insert path modules empty).trans Option.or_none

end Registry

namespace Loader

/-- A loader that fails for the listed paths, compared as they are written, and asks `inner` for the others. -/
def refusing (failures : List (String × LoadError)) (inner : Loader β σ) : Loader β σ := fun path w =>
  match (Path.named failures).lookup path with
  | some e => (.error e, w)
  | none   => inner path w

end Loader

/-- The name of a registry. -/
structure Handle where
  number : Nat
  deriving DecidableEq, Repr, Inhabited

/-- Another handle on the same registry. -/
def Handle.clone (h : Handle) : Handle := h

/-- Every registry there is; a handle names the one at its number. -/
structure Registries (β σ : Type) where
  all : Array (Registry β σ)

namespace Registries

def empty : Registries β σ := ⟨#[]⟩

def create (rs : Registries β σ) (r : Registry β σ) : Handle × Registries β σ :=
  (⟨rs.all.size⟩, ⟨rs.all.push r⟩)

/-- The registry behind a handle; there is nothing behind a handle that was never made. -/
def get (rs : Registries β σ) (h : Handle) : Registry β σ := rs.all.getD h.number .empty

def set (rs : Registries β σ) (h : Handle) (r : Registry β σ) : Registries β σ :=
  ⟨rs.all.setIfInBounds h.number r⟩

/-- Register a module through a handle; the answer is the module it replaces. -/
def insert (rs : Registries β σ) (h : Handle) (path : Path) (m : Module β σ) :
    Option (Module β σ) × Registries β σ :=
  ((rs.get h).get? path, rs.set h ((rs.get h).insert path m))

/-- Remove what is under a path through a handle; the answer is what was there. -/
def remove (rs : Registries β σ) (h : Handle) (path : Path) : Option (Module β σ) × Registries β σ :=
  ((rs.get h).get? path, rs.set h ((rs.get h).erase path))

def contains (rs : Registries β σ) (h : Handle) (path : Path) : Bool := (rs.get h).contains path

/-- Ask for a module through a handle. -/
def resolve (rs : Registries β σ) (h : Handle) : Loader β σ := (rs.get h).loader

theorem get_create_self (rs : Registries β σ) (r : Registry β σ) : (rs.create r).2.get (rs.create r).1 = r := by
  simp [create, get, Array.getD_eq_getD_getElem?]

theorem get_create_of_lt (rs : Registries β σ) (r : Registry β σ) {h : Handle} (hlt : h.number < rs.all.size) :
    (rs.create r).2.get h = rs.get h := by
  simp [create, get, Array.getD_eq_getD_getElem?, Array.getElem?_push, Nat.ne_of_lt hlt]

theorem get_set_self (rs : Registries β σ) {h : Handle} (hlt : h.number < rs.all.size) (r : Registry β σ) :
    (rs.set h r).get h = r := by
  simp [set, get, Array.getD_eq_getD_getElem?, hlt]

theorem get_set_of_ne (rs : Registries β σ) {h h' : Handle} (hne : h' ≠ h) (r : Registry β σ) :
    (rs.set h r).get h' = rs.get h' := by
  have hnumber : h.number ≠ h'.number := fun heq => hne (by cases h; cases h'; exact congrArg Handle.mk heq.symm)
  simp [set, get, Array.getD_eq_getD_getElem?, hnumber]

end Registries
end MixedMode
