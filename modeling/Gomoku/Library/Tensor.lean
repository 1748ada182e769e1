import Gomoku.Library.Execution
import Mathlib.Data.List.Nodup

/-!
# Output tensors as store logs

A freshly allocated tensor has no defined elements. The model keeps every store made to it,
so that one can say what an element holds, how often it was written, and that no store missed
the tensor. `foldlM_store` turns a loop of stores into one `extend`, and for a log without
repeated indices `read_extend_iff` and `writes_extend` say what was stored and that it was
stored once.
-/

/-- A tensor: its shape and the stores made to it, the latest first. -/
structure Tensor (α : Type) where
  shape : List Nat
  stores : List (List Nat × α)

namespace Tensor

open Execution

variable {α : Type}

/-- The index addresses an element of a tensor of the shape. -/
def inRange : List Nat → List Nat → Bool
  | [], [] => true
  | size :: shape, i :: index => decide (i < size) && inRange shape index
  | _, _ => false

/-- A tensor with undefined elements. -/
def allocate (shape : List Nat) : Tensor α := ⟨shape, []⟩

/-- Assign one element. -/
def store (tensor : Tensor α) (index : List Nat) (value : α) : Result (Tensor α) :=
  if inRange tensor.shape index then
    .ok { tensor with stores := (index, value) :: tensor.stores }
  else .error .outOfRange

/-- The value of an element: the last one stored there, if any. -/
def read (tensor : Tensor α) (index : List Nat) : Option α := tensor.stores.lookup index

/-- How many stores went to an element. -/
def writes (tensor : Tensor α) (index : List Nat) : Nat :=
  (tensor.stores.map Prod.fst).count index

/-- Both tensors have the same shape and the same elements. -/
def Same (tensor other : Tensor α) : Prop :=
  tensor.shape = other.shape ∧ ∀ index, tensor.read index = other.read index

/-- The tensor after a sequence of stores. -/
def extend (tensor : Tensor α) (pairs : List (List Nat × α)) : Tensor α :=
  { tensor with stores := pairs.reverse ++ tensor.stores }

@[simp] theorem extend_shape (tensor : Tensor α) (pairs : List (List Nat × α)) :
    (tensor.extend pairs).shape = tensor.shape := rfl

@[simp] theorem extend_nil (tensor : Tensor α) : tensor.extend [] = tensor := rfl

@[simp] theorem inRange_nil_iff {index : List Nat} : inRange [] index = true ↔ index = [] := by
  cases index <;> simp [inRange]

/-- An index of a tensor starts with an index of its first dimension. -/
theorem inRange_cons_iff {size : Nat} {shape index : List Nat} :
    inRange (size :: shape) index = true ↔
      ∃ i rest, index = i :: rest ∧ i < size ∧ inRange shape rest = true := by
  cases index with
  | nil => simp [inRange]
  | cons i rest => simp [inRange]

/-- Two sequences of stores are one. -/
@[simp] theorem extend_extend (tensor : Tensor α) (pairs later : List (List Nat × α)) :
    (tensor.extend pairs).extend later = tensor.extend (pairs ++ later) := by
  simp [extend]

/-- A store inside the tensor. -/
theorem store_of_inRange {tensor : Tensor α} {index : List Nat}
    (h : inRange tensor.shape index = true) (value : α) :
    tensor.store index value = .ok (tensor.extend [(index, value)]) := by
  simp [store, h, extend]

/-- A loop that stores one element in every pass. -/
theorem foldlM_store {β : Type} (items : List β) (index : β → List Nat) (value : β → α)
    (tensor : Tensor α) (h : ∀ item ∈ items, inRange tensor.shape (index item) = true) :
    items.foldlM (fun tensor item => tensor.store (index item) (value item)) tensor =
      .ok (tensor.extend (items.map fun item => (index item, value item))) := by
  induction items generalizing tensor with
  | nil => rfl
  | cons item rest ih =>
      rw [List.foldlM_cons, store_of_inRange (h item (by simp)), ok_bind,
        ih _ (fun other hm => by simpa using h other (by simp [hm]))]
      simp

variable {shape : List Nat} {pairs : List (List Nat × α)} {index : List Nat} {value : α}

/-- In a log without repeated indices an element holds what was stored there. -/
theorem read_extend_iff (hnodup : (pairs.map Prod.fst).Nodup) :
    ((allocate shape).extend pairs).read index = some value ↔ (index, value) ∈ pairs := by
  simp only [read, extend, allocate, List.append_nil]
  rw [← List.mem_reverse]
  have hreverse : (pairs.reverse.map Prod.fst).Nodup := by
    rw [List.map_reverse, List.nodup_reverse]
    exact hnodup
  generalize pairs.reverse = log at hreverse ⊢
  induction log with
  | nil => simp
  | cons pair rest ih =>
      obtain ⟨key, stored⟩ := pair
      simp only [List.map_cons, List.nodup_cons] at hreverse
      rw [List.lookup_cons]
      by_cases hkey : index = key
      · subst hkey
        have hnot : (index, value) ∉ rest :=
          fun hmem => hreverse.1 (List.mem_map.mpr ⟨_, hmem, rfl⟩)
        simp [hnot, eq_comm]
      · have hne : (index == key) = false := by simpa using hkey
        simp [hne, hkey, ih hreverse.2]

/-- In a log without repeated indices the elements that occur were written once, the others
never. -/
theorem writes_extend (hnodup : (pairs.map Prod.fst).Nodup) (index : List Nat) :
    ((allocate shape).extend pairs).writes index =
      if index ∈ pairs.map Prod.fst then 1 else 0 := by
  simp only [writes, extend, allocate, List.append_nil, List.map_reverse, List.count_reverse]
  exact hnodup.count

end Tensor
