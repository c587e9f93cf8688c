import Mathlib.Data.List.Forall2
import ToyLang.Json.Basic

/-!
# JSON values without some of their fields

`Json.Equivalent` says that two values are one as JSON: objects are read as maps, so that the order
of their fields does not count. `Json.without names` deletes every field with one of the names, at
every depth, and `Json.dropField` deletes one at the top. What is left of two objects is equivalent
if and only if what is left of their fields is, name by name (`equivalentWithout_obj_iff`), which
can be told one field after the other (`FieldsEquivalent.cons_iff`).
-/

set_option autoImplicit false

namespace ToyLang.Json

/-! ## Equivalence -/

/-- The values are one as JSON values. -/
inductive Equivalent : Json → Json → Prop
  | null : Equivalent null null
  | bool (b : Bool) : Equivalent (bool b) (bool b)
  | int (n : Int) : Equivalent (int n) (int n)
  | str (s : String) : Equivalent (str s) (str s)
  | arr {js ks : List Json} (h : List.Forall₂ Equivalent js ks) : Equivalent (arr js) (arr ks)
  | obj {fs gs : List (String × Json)}
      (h : ∀ name, Option.Rel Equivalent (fs.lookup name) (gs.lookup name)) :
      Equivalent (obj fs) (obj gs)

variable {js ks : List Json} {fs gs : List (String × Json)} {names : List String}

@[simp] theorem equivalent_int_iff {m n : Int} : Equivalent (int m) (int n) ↔ m = n :=
  ⟨fun h => by cases h; rfl, fun h => h ▸ .int m⟩

@[simp] theorem equivalent_str_iff {s t : String} : Equivalent (str s) (str t) ↔ s = t :=
  ⟨fun h => by cases h; rfl, fun h => h ▸ .str s⟩

@[simp] theorem equivalent_arr_iff :
    Equivalent (arr js) (arr ks) ↔ List.Forall₂ Equivalent js ks :=
  ⟨fun h => by cases h; assumption, .arr⟩

theorem equivalent_obj_iff :
    Equivalent (obj fs) (obj gs) ↔
      ∀ name, Option.Rel Equivalent (fs.lookup name) (gs.lookup name) :=
  ⟨fun h => by cases h; assumption, .obj⟩

mutual

theorem Equivalent.refl : (j : Json) → j.Equivalent j
  | .null => .null
  | .bool b => .bool b
  | .int n => .int n
  | .str s => .str s
  | .arr js => .arr (Equivalent.refl_all js)
  | .obj fs => .obj fun name => Equivalent.refl_fields name fs

theorem Equivalent.refl_all : (js : List Json) → List.Forall₂ Equivalent js js
  | [] => .nil
  | j :: js => .cons (Equivalent.refl j) (Equivalent.refl_all js)

theorem Equivalent.refl_fields (name : String) :
    (fs : List (String × Json)) → Option.Rel Equivalent (fs.lookup name) (fs.lookup name)
  | [] => .none
  | (other, j) :: fs => by
    rw [List.lookup_cons]
    split
    · exact .some (Equivalent.refl j)
    · exact Equivalent.refl_fields name fs

end

/-! ## Deleting fields -/

mutual

/-- The value without the fields of the given names, at every depth. -/
def without (names : List String) : Json → Json
  | arr js => arr (withoutAll names js)
  | obj fs => obj (withoutFields names fs)
  | null => null
  | bool b => bool b
  | int n => int n
  | str s => str s

/-- The same for every value of a row. -/
def withoutAll (names : List String) : List Json → List Json
  | [] => []
  | j :: js => without names j :: withoutAll names js

/-- The fields of other names, without such fields in their values. -/
def withoutFields (names : List String) : List (String × Json) → List (String × Json)
  | [] => []
  | (name, j) :: fs =>
    if name ∈ names then withoutFields names fs
    else (name, without names j) :: withoutFields names fs

end

/-- The value without the field of the given name, if it is an object. -/
def dropField (name : String) : Json → Json
  | obj fs => obj (fs.filter fun f => f.1 ≠ name)
  | j => j

theorem withoutAll_eq_map (names : List String) (js : List Json) :
    withoutAll names js = js.map (without names) := by
  induction js with
  | nil => rfl
  | cons j js ih => rw [withoutAll, ih, List.map_cons]

theorem lookup_withoutFields (names : List String) (fs : List (String × Json)) (name : String) :
    (withoutFields names fs).lookup name =
      if name ∈ names then none else (fs.lookup name).map (without names) := by
  induction fs with
  | nil => simp [withoutFields]
  | cons f fs ih =>
    obtain ⟨other, j⟩ := f
    rw [withoutFields]
    by_cases hname : name = other
    · subst hname
      by_cases hn : name ∈ names <;> simp [hn, ih]
    · have hbeq : (name == other) = false := beq_eq_false_iff_ne.2 hname
      by_cases ho : other ∈ names <;> simp [ho, ih, List.lookup_cons, hbeq]

mutual

/-- Without names nothing is deleted. -/
theorem without_nil : (j : Json) → j.without [] = j
  | null | bool _ | int _ | str _ => rfl
  | arr js => by rw [without, withoutAll_nil js]
  | obj fs => by rw [without, withoutFields_nil fs]

theorem withoutAll_nil : (js : List Json) → withoutAll [] js = js
  | [] => rfl
  | j :: js => by rw [withoutAll, without_nil j, withoutAll_nil js]

theorem withoutFields_nil : (fs : List (String × Json)) → withoutFields [] fs = fs
  | [] => rfl
  | (name, j) :: fs => by
    rw [withoutFields, if_neg List.not_mem_nil, without_nil j, withoutFields_nil fs]

end

/-! ## What is left -/

/-- What is left of the values without the fields of the given names is equivalent. -/
def EquivalentWithout (names : List String) (j k : Json) : Prop :=
  Equivalent (j.without names) (k.without names)

@[simp] theorem equivalentWithout_str_iff {s t : String} :
    EquivalentWithout names (str s) (str t) ↔ s = t := equivalent_str_iff

@[simp] theorem equivalentWithout_int_iff {m n : Int} :
    EquivalentWithout names (int m) (int n) ↔ m = n := equivalent_int_iff

@[simp] theorem equivalentWithout_arr_iff :
    EquivalentWithout names (arr js) (arr ks) ↔ List.Forall₂ (EquivalentWithout names) js ks := by
  rw [EquivalentWithout, without, without, equivalent_arr_iff, withoutAll_eq_map, withoutAll_eq_map,
    List.forall₂_map_left_iff, List.forall₂_map_right_iff]
  rfl

/-- The fields of other names have values of which what is left is equivalent. -/
def FieldsEquivalent (names : List String) (fs gs : List (String × Json)) : Prop :=
  ∀ name, name ∉ names →
    Option.Rel (EquivalentWithout names) (fs.lookup name) (gs.lookup name)

theorem equivalentWithout_obj_iff :
    EquivalentWithout names (obj fs) (obj gs) ↔ FieldsEquivalent names fs gs := by
  rw [EquivalentWithout, without, without, equivalent_obj_iff]
  refine forall_congr' fun name => ?_
  rw [lookup_withoutFields, lookup_withoutFields]
  by_cases hname : name ∈ names
  · simp [hname]
  · cases fs.lookup name <;> cases gs.lookup name <;> simp [hname, EquivalentWithout]

/-- The value is an object with a field of the name. -/
def has (name : String) : Json → Bool
  | obj fs => (fs.lookup name).isSome
  | _ => false

theorem EquivalentWithout.has_eq {j k : Json} {name : String} (h : EquivalentWithout names j k)
    (hname : name ∉ names) : j.has name = k.has name := by
  match j, k, h with
  | obj fs, obj gs, h =>
    have hlookup := equivalentWithout_obj_iff.1 h name hname
    rw [has, has]
    revert hlookup
    cases fs.lookup name <;> cases gs.lookup name <;> simp
  | null, null, _ | bool _, bool _, _ | int _, int _, _ | str _, str _, _ | arr _, arr _, _ => rfl

namespace FieldsEquivalent

variable {fs' gs' : List (String × Json)} {name : String}

theorem nil : FieldsEquivalent names [] [] := fun _ _ => .none

/-- Fields that are those of `fs` and `gs` but for one name, which these do not have. -/
theorem slot_iff {x y : Option Json} (hf : fs.lookup name = none) (hg : gs.lookup name = none)
    (hx : ∀ n, fs'.lookup n = if n = name then x else fs.lookup n)
    (hy : ∀ n, gs'.lookup n = if n = name then y else gs.lookup n) :
    FieldsEquivalent names fs' gs' ↔
      (name ∉ names → Option.Rel (EquivalentWithout names) x y) ∧ FieldsEquivalent names fs gs := by
  constructor
  · intro h
    refine ⟨fun hname => by simpa [hx, hy] using h name hname, fun n hn => ?_⟩
    by_cases hne : n = name
    · subst hne
      simp [hf, hg]
    · simpa [hx, hy, hne] using h n hn
  · rintro ⟨hname, hrest⟩ n hn
    rw [hx, hy]
    by_cases hne : n = name
    · subst hne
      simpa using hname hn
    · simpa [hne] using hrest n hn

/-- A field in front of others of other names. -/
theorem cons_iff {j k : Json} (hf : fs.lookup name = none) (hg : gs.lookup name = none) :
    FieldsEquivalent names ((name, j) :: fs) ((name, k) :: gs) ↔
      (name ∉ names → EquivalentWithout names j k) ∧ FieldsEquivalent names fs gs := by
  have lookup (j : Json) (fs : List (String × Json)) (n : String) :
      ((name, j) :: fs).lookup n = if n = name then some j else fs.lookup n := by
    by_cases hn : n = name
    · simp [hn]
    · simp [List.lookup_cons, hn, beq_eq_false_iff_ne.2 hn]
  rw [slot_iff hf hg (lookup j fs) (lookup k gs), Option.rel_some_some]

end FieldsEquivalent

end ToyLang.Json
