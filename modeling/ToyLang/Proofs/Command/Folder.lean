import Mathlib.Data.String.Basic
import ToyLang.Command.Folder

/-!
# The files of a folder

A plain name, one without slashes that is neither empty nor made of dots, is a path of one name
(`Folder.route_plain`). Where it names no folder, it can be written (`Folder.write_plain`), and what
was written is read (`Folder.read_put`).
-/

set_option autoImplicit false

namespace ToyLang

/-! ## Paths without slashes -/

section
open String

theorem splitOnAux_free {cs : List Char} (h : '/' ∉ cs) (before : List Char) :
    splitOnAux (ofList (before ++ cs)) "/" 0 ⟨utf8Len before⟩ 0 [] = [ofList (before ++ cs)] := by
  induction cs generalizing before with
  | nil =>
    rw [splitOnAux, if_pos ((atEnd_of_valid before []).2 rfl)]
    show [Pos.Raw.extract _ 0 ⟨utf8Len before⟩] = _
    have hend : (⟨utf8Len before⟩ : Pos.Raw) = (ofList (before ++ [])).rawEndPos := by simp
    rw [hend, extract_zero_rawEndPos]
  | cons c cs ih =>
    obtain ⟨hc, hcs⟩ := List.ne_and_not_mem_of_not_mem_cons h
    have hend : Pos.Raw.atEnd (ofList (before ++ c :: cs)) ⟨utf8Len before⟩ ≠ true :=
      fun he => by cases (atEnd_of_valid before (c :: cs)).1 he
    have hslash : ¬((c :: cs).headD default == Pos.Raw.get "/" 0) = true :=
      fun he => hc (beq_iff_eq.1 he).symm
    have hnext : utf8Len before + c.utf8Size = utf8Len (before ++ [c]) := by simp
    have hrest := ih hcs (before ++ [c])
    rw [List.append_assoc, List.singleton_append] at hrest
    rw [splitOnAux, if_neg hend, get_of_valid, if_neg hslash]
    show splitOnAux _ "/" 0 (Pos.Raw.next _ ⟨utf8Len before⟩) 0 [] = _
    rw [next_of_valid, hnext, hrest]

/-- A text without slashes is not split. -/
theorem splitOn_free {s : String} (h : '/' ∉ s.toList) : s.splitOn "/" = [s] := by
  have haux := splitOnAux_free h []
  rw [List.nil_append, ofList_toList] at haux
  exact (if_neg (by decide)).trans haux

end

namespace Folder

/-- A name that a file of the folder can have. -/
structure IsPlain (name : String) : Prop where
  noSlash : '/' ∉ name.toList
  short : name.utf8ByteSize ≤ maxName
  named : name ≠ "" ∧ name ≠ "." ∧ name ≠ ".."

variable {f : Folder} {name : String} {bytes : List UInt8}

theorem route_plain (h : IsPlain name) : route name = .ok (some [], [name]) := by
  have hstart : name.startsWith "/" = false := by
    rw [String.startsWith_string_eq_false_iff]
    rintro ⟨cs, hcs⟩
    exact h.noSlash (hcs ▸ by simp)
  have hshort : ¬maxPath < name.utf8ByteSize := by
    have := h.short
    simp only [maxName, maxPath] at this ⊢
    omega
  simp [route, h.named.1, hshort, hstart, splitOn_free h.noSlash]

/-- A plain name leads to the file of that name, if it is not the name of a folder. -/
theorem walk_plain (h : IsPlain name) (hf : [name] ∉ f.folders) :
    f.walk (some []) [name] =
      .ok (match f.files.lookup [name] with
        | some bytes => .file [name] bytes
        | none => .free [name]) := by
  have hshort : ¬maxName < name.utf8ByteSize := Nat.not_lt.2 h.short
  rw [walk, if_neg (by simp [h.named]), if_neg h.named.2.2, if_neg hshort]
  simp only [List.nil_append, if_neg hf]
  cases f.files.lookup [name] <;> rfl

/-- **Writing to a plain name** puts a file there. -/
theorem write_plain (h : IsPlain name) (hf : [name] ∉ f.folders) :
    f.write name bytes = .ok (f.put [name] bytes) := by
  have hend : name.endsWith "/" = false := by
    rw [String.endsWith_eq_endsWith_toSlice, String.Slice.endsWith_string_eq_false_iff,
      String.copy_toSlice]
    rintro ⟨cs, hcs⟩
    exact h.noSlash (hcs ▸ by simp)
  unfold write
  simp only [route_plain h, hend]
  show (f.walk (some []) [name] >>= fun place => _) = _
  rw [walk_plain h hf]
  cases f.files.lookup [name] <;> rfl

/-- **What was written is read.** -/
theorem read_put (h : IsPlain name) (hf : [name] ∉ f.folders) :
    (f.put [name] bytes).read name = .ok bytes := by
  have hput : (f.put [name] bytes).files.lookup [name] = some bytes := by simp [put]
  have hfolders : [name] ∉ (f.put [name] bytes).folders := hf
  unfold read
  simp only [route_plain h]
  show ((f.put [name] bytes).walk (some []) [name] >>= fun place => _) = _
  rw [walk_plain h hfolders, hput]
  rfl

/-! ## Runs -/

theorem world_write {g : Folder} {text : String}
    (h : f.write name text.toUTF8.data.toList = .ok g) :
    (world.write name text).run f = (.ok (), g) := by
  simp only [world, StateT.run_bind, StateT.run_get, pure_bind, h]
  rfl

theorem world_read : (world.read name).run f = (f.read name, f) := rfl

end Folder

end ToyLang
