import Mathlib.Data.List.Basic
import Mathlib.Data.List.Infix
import Mathlib.Tactic.Common

/-!
# Streams of frames

A `Format` encodes items as frames and reads one frame from the front of a stream, knowing its
offset in the file. Reading a stream frame by frame gives the items whose frames it starts with
(`eq_of_readAll`), and these are determined by the stream (`prefix_of_encodeAll_eq`). A part of a
stream of frames that is cut off anywhere is made of whole frames and the beginning of another
(`exists_cut`).
-/

namespace Framing

/-- What reading a frame at the front of a stream gives: an item, the offset after it and the rest of
the stream, or a reason to stop. -/
inductive Step (α β ε : Type) where
  | produced (item : α) (offset : Nat) (rest : List β)
  | stopped (reason : ε)

/-- Frames for the valid items of a type. What is written is read, and what is read was written. -/
structure Format (α β ε : Type) where
  Valid : α → Prop
  encode : α → List β
  read : Nat → List β → Step α β ε
  encode_ne_nil : ∀ item, encode item ≠ []
  read_encode : ∀ item, Valid item → ∀ offset rest,
    read offset (encode item ++ rest) = .produced item (offset + (encode item).length) rest
  eq_of_read : ∀ offset stream item next rest, read offset stream = .produced item next rest →
    Valid item ∧ stream = encode item ++ rest ∧ next = offset + (encode item).length

namespace Format

variable {α β ε : Type} (format : Format α β ε)

/-- The frames of some items. -/
def encodeAll (items : List α) : List β := items.flatMap format.encode

/-- Read frames until one cannot be read, at most `fuel` times: the items with their offsets, and
the reason. -/
def readAll : Nat → Nat → List β → Option (List (Nat × α) × ε)
  | 0, _, _ => none
  | fuel + 1, offset, stream =>
      match format.read offset stream with
      | .stopped reason => some ([], reason)
      | .produced item next rest =>
          match readAll fuel next rest with
          | none => none
          | some (items, reason) => some ((offset, item) :: items, reason)

/-- The items with the offsets of their frames. -/
def located (offset : Nat) : List α → List (Nat × α)
  | [] => []
  | item :: items => (offset, item) :: located (offset + (format.encode item).length) items

variable {format}

@[simp] theorem encodeAll_nil : format.encodeAll [] = [] := rfl

theorem encodeAll_cons (item : α) (items : List α) :
    format.encodeAll (item :: items) = format.encode item ++ format.encodeAll items :=
  List.flatMap_cons

theorem encodeAll_append (items items' : List α) :
    format.encodeAll (items ++ items') = format.encodeAll items ++ format.encodeAll items' :=
  List.flatMap_append

/-- The frames of valid items are read one after the other. -/
theorem readAll_encodeAll {items : List α} (hvalid : ∀ item ∈ items, format.Valid item)
    {tail : List β} {offset : Nat} {reason : ε}
    (htail : format.read (offset + (format.encodeAll items).length) tail = .stopped reason)
    {fuel : Nat} (hfuel : items.length < fuel) :
    format.readAll fuel offset (format.encodeAll items ++ tail) =
      some (format.located offset items, reason) := by
  induction items generalizing offset fuel with
  | nil =>
      obtain ⟨rest, rfl⟩ : ∃ rest, fuel = rest + 1 := ⟨fuel - 1, by omega⟩
      rw [encodeAll_nil, List.length_nil, Nat.add_zero] at htail
      rw [encodeAll_nil, List.nil_append, readAll, htail]
      rfl
  | cons item items ih =>
      rw [List.length_cons] at hfuel
      obtain ⟨rest, rfl⟩ : ∃ rest, fuel = rest + 1 := ⟨fuel - 1, by omega⟩
      rw [List.forall_mem_cons] at hvalid
      rw [encodeAll_cons, List.length_append, ← Nat.add_assoc] at htail
      have hrest := ih hvalid.2 htail (show items.length < rest by omega)
      simp only [encodeAll_cons, List.append_assoc, readAll, format.read_encode item hvalid.1, hrest,
        located]

/-- Every item that is read has its frame in the stream. -/
theorem eq_of_readAll {fuel offset : Nat} {stream : List β} {found : List (Nat × α)} {reason : ε}
    (h : format.readAll fuel offset stream = some (found, reason)) :
    ∃ items tail, found = format.located offset items ∧ (∀ item ∈ items, format.Valid item) ∧
      stream = format.encodeAll items ++ tail ∧
      format.read (offset + (format.encodeAll items).length) tail = .stopped reason ∧
      items.length < fuel := by
  induction fuel generalizing offset stream found with
  | zero => cases h
  | succ fuel ih =>
      rw [readAll] at h
      split at h
      · rename_i stopped hread
        obtain ⟨rfl, rfl⟩ := Prod.mk.inj (Option.some.inj h)
        exact ⟨[], stream, rfl, List.forall_mem_nil _, rfl, hread, Nat.zero_lt_succ fuel⟩
      · rename_i item next rest hread
        obtain ⟨hvalid, rfl, rfl⟩ := format.eq_of_read _ _ _ _ _ hread
        split at h
        · cases h
        · rename_i later stopped hrest
          obtain ⟨rfl, rfl⟩ := Prod.mk.inj (Option.some.inj h)
          obtain ⟨items, tail, rfl, hitems, rfl, htail, hfuel⟩ := ih hrest
          refine ⟨item :: items, tail, rfl, List.forall_mem_cons.mpr ⟨hvalid, hitems⟩, ?_, ?_, ?_⟩
          · rw [encodeAll_cons, List.append_assoc]
          · rw [encodeAll_cons, List.length_append, ← Nat.add_assoc]
            exact htail
          · rw [List.length_cons]
            omega

/-- The frames that a stream starts with come in one order only, up to the point where no frame can
be read. -/
theorem prefix_of_encodeAll_eq {items items' : List α} {tail tail' : List β} {offset : Nat}
    {reason : ε} (hitems : ∀ item ∈ items, format.Valid item)
    (hitems' : ∀ item ∈ items', format.Valid item)
    (htail : format.read offset tail = .stopped reason)
    (h : format.encodeAll items' ++ tail' = format.encodeAll items ++ tail) : items' <+: items := by
  induction items' generalizing items with
  | nil => exact List.nil_prefix
  | cons item' items' ih =>
      rw [List.forall_mem_cons] at hitems'
      rw [encodeAll_cons, List.append_assoc] at h
      have hread' := format.read_encode item' hitems'.1 offset (format.encodeAll items' ++ tail')
      rw [h] at hread'
      cases items with
      | nil =>
          rw [encodeAll_nil, List.nil_append, htail] at hread'
          cases hread'
      | cons item items =>
          rw [List.forall_mem_cons] at hitems
          rw [encodeAll_cons, List.append_assoc, format.read_encode item hitems.1] at hread'
          obtain ⟨rfl, _, hrest⟩ := Step.produced.inj hread'
          exact List.cons_prefix_cons.mpr ⟨rfl, ih hitems.2 hitems'.2 hrest.symm⟩

/-- Frames are not empty, so a stream has at least as many elements as frames. -/
theorem length_le_encodeAll (items : List α) : items.length ≤ (format.encodeAll items).length := by
  induction items with
  | nil => exact Nat.zero_le _
  | cons item items ih =>
      have hpos := List.length_pos_iff.mpr (format.encode_ne_nil item)
      rw [encodeAll_cons, List.length_append, List.length_cons]
      omega

/-- With more fuel than elements a stream is read to its end. -/
theorem exists_readAll {fuel : Nat} {stream : List β} (hfuel : stream.length < fuel)
    (offset : Nat) : ∃ found reason, format.readAll fuel offset stream = some (found, reason) := by
  induction fuel generalizing offset stream with
  | zero => exact absurd hfuel (Nat.not_lt_zero _)
  | succ fuel ih =>
      rw [readAll]
      split
      · exact ⟨_, _, rfl⟩
      · rename_i item next rest hread
        obtain ⟨_, rfl, _⟩ := format.eq_of_read _ _ _ _ _ hread
        have hpos := List.length_pos_iff.mpr (format.encode_ne_nil item)
        rw [List.length_append] at hfuel
        obtain ⟨found, reason, hrest⟩ := @ih rest (by omega) next
        rw [hrest]
        exact ⟨_, _, rfl⟩

/-- A stream of frames that is cut off is made of whole frames and the beginning of another. -/
theorem exists_cut {items : List α} {stream : List β} (h : stream <+: format.encodeAll items) :
    (stream = format.encodeAll items) ∨
      ∃ before item after part later, items = before ++ item :: after ∧
        stream = format.encodeAll before ++ part ∧ format.encode item = part ++ later ∧
        later ≠ [] := by
  induction items generalizing stream with
  | nil => exact Or.inl (List.prefix_nil.mp h)
  | cons item items ih =>
      rw [encodeAll_cons] at h
      by_cases hwhole : format.encode item <+: stream
      · -- the first frame is whole, and the rest is cut off
        obtain ⟨rest, rfl⟩ := hwhole
        rw [List.prefix_append_right_inj] at h
        rcases ih h with rfl | ⟨before, next, after, part, later, rfl, rfl, hpart, hlater⟩
        · exact Or.inl (encodeAll_cons item items).symm
        · refine Or.inr ⟨item :: before, next, after, part, later, rfl, ?_, hpart, hlater⟩
          rw [encodeAll_cons, List.append_assoc]
      · have hpart : stream <+: format.encode item :=
          (List.prefix_or_prefix_of_prefix h (List.prefix_append _ _)).resolve_right hwhole
        obtain ⟨later, hlater⟩ := hpart
        refine Or.inr ⟨[], item, items, stream, later, rfl, rfl, hlater.symm, ?_⟩
        rintro rfl
        rw [List.append_nil] at hlater
        exact hwhole (hlater ▸ List.prefix_rfl)

/-- No frame is read from the beginning of one. -/
theorem read_of_part {item : α} (hvalid : format.Valid item) {part later : List β}
    (hpart : format.encode item = part ++ later) (hlater : later ≠ []) (offset : Nat) :
    ∃ reason, format.read offset part = .stopped reason := by
  cases hread : format.read offset part with
  | stopped reason => exact ⟨reason, rfl⟩
  | produced found next rest =>
      obtain ⟨hfound, rfl, _⟩ := format.eq_of_read _ _ _ _ _ hread
      have hboth := format.read_encode found hfound offset (rest ++ later)
      rw [← List.append_assoc, ← hpart] at hboth
      have hsame := format.read_encode item hvalid offset []
      rw [List.append_nil, hboth] at hsame
      obtain ⟨rfl, _, hrest⟩ := Step.produced.inj hsame
      exact absurd (List.append_eq_nil_iff.mp hrest).2 hlater

theorem read_nil (offset : Nat) : ∃ reason, format.read offset [] = .stopped reason := by
  cases hread : format.read offset [] with
  | stopped reason => exact ⟨reason, rfl⟩
  | produced found next rest =>
      obtain ⟨_, hnil, _⟩ := format.eq_of_read _ _ _ _ _ hread
      exact absurd (List.append_eq_nil_iff.mp hnil.symm).1 (format.encode_ne_nil found)

/-- Reading a stream of frames that is cut off gives the items of the whole frames, and stops at the
beginning of another. -/
theorem readAll_of_cut {items : List α} (hvalid : ∀ item ∈ items, format.Valid item)
    {stream : List β} (h : stream <+: format.encodeAll items) :
    ∃ before after part reason, items = before ++ after ∧
      stream = format.encodeAll before ++ part ∧ (after = [] → part = []) ∧
      (stream = format.encodeAll items → after = []) ∧
      (∀ item ∈ after.head?, ∃ later, later ≠ [] ∧ format.encode item = part ++ later) ∧
      format.read (format.encodeAll before).length part = .stopped reason ∧
      ∀ fuel, stream.length < fuel →
        format.readAll fuel 0 stream = some (format.located 0 before, reason) := by
  have hfinish : ∀ before part reason, (∀ item ∈ before, format.Valid item) →
      format.read (format.encodeAll before).length part = .stopped reason →
      ∀ fuel, (format.encodeAll before ++ part).length < fuel →
        format.readAll fuel 0 (format.encodeAll before ++ part) =
          some (format.located 0 before, reason) := by
    intro before part reason hbefore hread fuel hfuel
    rw [← Nat.zero_add (format.encodeAll before).length] at hread
    have hlength := format.length_le_encodeAll before
    rw [List.length_append] at hfuel
    exact readAll_encodeAll hbefore hread (by omega)
  rcases exists_cut h with rfl | ⟨before, item, after, part, later, rfl, rfl, hpart, hlater⟩
  · obtain ⟨reason, hread⟩ := format.read_nil (format.encodeAll items).length
    refine ⟨items, [], [], reason, (List.append_nil _).symm, (List.append_nil _).symm, fun _ => rfl,
      fun _ => rfl, ?_, hread, ?_⟩
    · rintro item ⟨⟩
    · have hall := hfinish items [] reason hvalid hread
      rwa [List.append_nil] at hall
  · rw [List.forall_mem_append, List.forall_mem_cons] at hvalid
    obtain ⟨reason, hread⟩ := read_of_part hvalid.2.1 hpart hlater (format.encodeAll before).length
    refine ⟨before, item :: after, part, reason, rfl, rfl,
      fun hnil => absurd hnil (List.cons_ne_nil _ _), fun hwhole => ?_, ?_, hread,
      hfinish before part reason hvalid.1 hread⟩
    · -- a part is shorter than the frames that are left
      rw [encodeAll_append, encodeAll_cons, hpart, List.append_assoc] at hwhole
      have hrest := List.append_cancel_left hwhole
      rw [List.self_eq_append_right] at hrest
      exact absurd (List.append_eq_nil_iff.mp hrest).1 hlater
    · rintro found ⟨⟩
      exact ⟨later, hlater, hpart⟩

end Format

end Framing
