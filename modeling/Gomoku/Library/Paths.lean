import Mathlib.Data.List.Basic
import Std.Data.String.ToNat

/-!
# Paths with separators

A path is a text with parts joined by `/`. The parts may contain separators themselves, so a path
is read from its end: what follows the last separator is determined by the path
(`append_separator_inj`). The end of a path is often a number, which contains no separator.
-/

namespace Paths

/-- What precedes the first separator of a list determines both parts. -/
theorem separator_cons_inj {α : Type} {separator : α} {first first' rest rest' : List α}
    (hfirst : separator ∉ first) (hfirst' : separator ∉ first')
    (h : first ++ separator :: rest = first' ++ separator :: rest') :
    first = first' ∧ rest = rest' := by
  induction first generalizing first' with
  | nil =>
      cases first' with
      | nil => exact ⟨rfl, List.tail_eq_of_cons_eq h⟩
      | cons item first' =>
          have hhead : separator = item := List.head_eq_of_cons_eq h
          exact absurd (by simp [hhead]) hfirst'
  | cons item first ih =>
      cases first' with
      | nil =>
          have hhead : item = separator := List.head_eq_of_cons_eq h
          exact absurd (by simp [hhead]) hfirst
      | cons item' first' =>
          obtain ⟨rfl, htail⟩ := List.cons.inj h
          obtain ⟨rfl, hrest⟩ := ih (fun hm => hfirst (by simp [hm]))
            (fun hm => hfirst' (by simp [hm])) htail
          exact ⟨rfl, hrest⟩

/-- What follows the last separator of a path determines both parts. -/
theorem append_separator_inj {path path' last last' : String} (hlast : '/' ∉ last.toList)
    (hlast' : '/' ∉ last'.toList) (h : path ++ "/" ++ last = path' ++ "/" ++ last') :
    path = path' ∧ last = last' := by
  have hlist : (path ++ "/" ++ last).toList.reverse = (path' ++ "/" ++ last').toList.reverse := by
    rw [h]
  have hseparator : "/".toList = ['/'] := rfl
  simp only [String.toList_append, hseparator, List.reverse_append, List.reverse_singleton,
    List.singleton_append] at hlist
  rw [← List.mem_reverse] at hlast hlast'
  obtain ⟨hparts, hrest⟩ := separator_cons_inj hlast hlast' hlist
  exact ⟨String.toList_inj.mp (List.reverse_injective hrest),
    String.toList_inj.mp (List.reverse_injective hparts)⟩

/-- A number contains no separator. -/
theorem separator_not_mem_toString (n : Nat) : '/' ∉ (toString n).toList := by
  intro hm
  rw [Nat.toString_eq_repr, Nat.toList_repr] at hm
  have hdigit := Nat.isDigit_of_mem_toDigits (by omega) (by omega) hm
  exact absurd hdigit (by decide)

/-- A path that ends with a number determines the number. -/
theorem append_number_inj {path path' : String} {n n' : Nat}
    (h : path ++ "/" ++ toString n = path' ++ "/" ++ toString n') : path = path' ∧ n = n' := by
  obtain ⟨hpath, hnumber⟩ := append_separator_inj (separator_not_mem_toString n)
    (separator_not_mem_toString n') h
  exact ⟨hpath, Nat.repr_injective hnumber⟩

end Paths
