/-!
# Finding a thing by its text

A finite vocabulary is a list of things with a text each. `find?` inverts the text; where every
thing is found under its own text (`round`), it does so exactly (`find?_eq_some_iff`). An open
vocabulary has further things, each made of a name that none of the fixed ones has; `named` inverts
the names of both.
-/

set_option autoImplicit false

namespace ToyLang.Lexicon

variable {α : Type}

/-- The first entry of `all` whose text is `s`. -/
def find? (all : List α) (text : α → String) (s : String) : Option α :=
  all.find? fun a => text a == s

theorem text_of_find? {all : List α} {text : α → String} {s : String} {a : α}
    (h : find? all text s = some a) : text a = s := by
  simpa using List.find?_some h

theorem find?_eq_some_iff {all : List α} {text : α → String}
    (round : ∀ a, find? all text (text a) = some a) {s : String} {a : α} :
    find? all text s = some a ↔ text a = s :=
  ⟨text_of_find?, fun h => h ▸ round a⟩

theorem find?_eq_none_iff {all : List α} {text : α → String} {s : String} :
    find? all text s = none ↔ s ∉ all.map text := by
  simp [find?]

/-- A text that is found again belongs to one thing only. -/
theorem text_injective {all : List α} {text : α → String}
    (round : ∀ a, find? all text (text a) = some a) {a b : α} (h : text a = text b) : a = b := by
  have := round a
  rw [h, round b] at this
  exact (Option.some.inj this).symm

/-! ## Open vocabularies -/

/-- The thing named `s`: a fixed one, or what `other` makes of a name that none of them has. -/
def named (fixed : List α) (name : α → String) (other : (s : String) → s ∉ fixed.map name → α)
    (s : String) : α :=
  match h : find? fixed name s with
  | some a => a
  | none => other s (find?_eq_none_iff.1 h)

variable {fixed : List α} {name : α → String} {other : (s : String) → s ∉ fixed.map name → α}

theorem name_named (hother : ∀ s fresh, name (other s fresh) = s) (s : String) :
    name (named fixed name other s) = s := by
  unfold named
  split
  · next h => exact text_of_find? h
  · exact hother s _

/-- A fixed thing is found under its name. -/
theorem named_name_of_find? {a : α} (h : find? fixed name (name a) = some a) :
    named fixed name other (name a) = a := by
  unfold named
  split
  · next h' => exact Option.some.inj (h'.symm.trans h)
  · next h' => rw [h] at h'; cases h'

/-- Any other thing is found under its name. -/
theorem named_of_not_mem {s : String} (fresh : s ∉ fixed.map name) :
    named fixed name other s = other s fresh := by
  have h := find?_eq_none_iff.2 fresh
  unfold named
  split
  · next h' => rw [h] at h'; cases h'
  · rfl

end ToyLang.Lexicon
