import Mathlib
import Propositional.Table

/-!
# Laws of tables

The free list of a table is what its links lead through. A table is tidy if that list holds each
vacant cell once and nothing else, and the number of cells with a value is the number of those that
are left. Seen through `value?`, overwriting, adding and dropping change one cell each; dropping puts
the cell in front of the free list, adding takes the front of it or a new cell, and all of them keep
the table tidy.
-/

namespace Propositional.Table

variable {α : Type} {t s : Table α} {i j : Nat} {v : α} {l : List Nat}

/-! ### The free list -/

/-- The cells that the links lead through from a cell on, in so many steps at most. -/
def linkedFrom (t : Table α) : Nat → Nat → List Nat
  | 0, _ => []
  | steps + 1, i => if i = 0 then [] else i :: t.linkedFrom steps (t.next i)

/-- The vacant cells in the order of their reuse. The links are followed for one step more than there
are cells, so links that run in a circle would lead to some cell twice. -/
def free (t : Table α) : List Nat := t.linkedFrom (t.size + 1) t.head

/-- The links lead from a cell through exactly these, and end behind them. -/
def Links (t : Table α) : Nat → List Nat → Prop
  | i, [] => i = 0
  | i, k :: later => i = k ∧ k ≠ 0 ∧ t.Links (t.next k) later

/-- The free list holds exactly the vacant cells, each once, and the other cells are counted. -/
structure Tidy (t : Table α) : Prop where
  nodup : t.free.Nodup
  mem_free : ∀ i, i ∈ t.free ↔ 1 ≤ i ∧ i ≤ t.size ∧ t.value? i = none
  counted : t.count + t.free.length = t.size

theorem linkedFrom_of_links {steps : Nat} (links : t.Links i l) (enough : l.length < steps) :
    t.linkedFrom steps i = l := by
  induction l generalizing i steps with
  | nil =>
    obtain rfl : i = 0 := links
    cases steps with
    | zero => rfl
    | succ steps => simp [linkedFrom]
  | cons k later ih =>
    obtain ⟨rfl, positive, rest⟩ := links
    cases steps with
    | zero => simp at enough
    | succ steps =>
      rw [linkedFrom, if_neg positive, ih rest (by simpa using enough)]

theorem links_linkedFrom {steps : Nat} (ended : (t.linkedFrom steps i).length < steps) :
    t.Links i (t.linkedFrom steps i) := by
  induction steps generalizing i with
  | zero => omega
  | succ steps ih =>
    unfold linkedFrom at ended ⊢
    split
    · assumption
    · rename_i positive
      rw [if_neg positive, List.length_cons] at ended
      exact ⟨rfl, positive, ih (by omega)⟩

theorem Links.congr (links : t.Links i l) (same : ∀ k ∈ l, s.next k = t.next k) : s.Links i l := by
  induction l generalizing i with
  | nil => exact links
  | cons k later ih =>
    obtain ⟨rfl, positive, rest⟩ := links
    refine ⟨rfl, positive, ?_⟩
    rw [same i List.mem_cons_self]
    exact ih rest fun k member => same k (List.mem_cons_of_mem _ member)

theorem length_le_size (nodup : l.Nodup) (inside : ∀ i ∈ l, 1 ≤ i ∧ i ≤ t.size) : l.length ≤ t.size := by
  have subset : l ⊆ List.range' 1 t.size := by
    intro i member
    have := inside i member
    exact List.mem_range'_1.mpr ⟨this.1, by omega⟩
  simpa using (List.subperm_of_subset nodup subset).length_le

theorem Tidy.inside (tidy : t.Tidy) (member : i ∈ t.free) : 1 ≤ i ∧ i ≤ t.size := by
  obtain ⟨positive, bound, -⟩ := (tidy.mem_free i).mp member
  exact ⟨positive, bound⟩

theorem Tidy.not_mem_free (tidy : t.Tidy) (held : t.value? i = some v) : i ∉ t.free := by
  intro member
  have vacant := ((tidy.mem_free i).mp member).2.2
  simp [held] at vacant

/-- The links of a tidy table lead through its free list and end there. -/
theorem Tidy.links (tidy : t.Tidy) : t.Links t.head t.free :=
  links_linkedFrom (Nat.lt_succ_of_le (length_le_size tidy.nodup fun _ => tidy.inside))

/-- Where the links lead through the vacant cells, each once, and end, these are the free list. -/
theorem tidy_of_links (links : t.Links t.head l) (nodup : l.Nodup)
    (mem_links : ∀ i, i ∈ l ↔ 1 ≤ i ∧ i ≤ t.size ∧ t.value? i = none)
    (counted : t.count + l.length = t.size) : t.Tidy ∧ t.free = l := by
  have same : t.free = l := linkedFrom_of_links links (by omega)
  exact ⟨⟨same ▸ nodup, same ▸ mem_links, same ▸ counted⟩, same⟩

/-! ### Reading a cell -/

theorem inside_of_value? (held : t.value? i = some v) : 1 ≤ i ∧ i ≤ t.size := by
  unfold value? at held
  split at held
  · simp at held
  · rename_i positive
    have inside : i - 1 < t.cells.size := by
      by_contra outside
      rw [Array.getElem?_eq_none (by omega)] at held
      simp at held
    unfold size
    omega

theorem entry_of_inside (inside : 1 ≤ i ∧ i ≤ t.size) :
    ∃ entry, t.entry i = .ok entry ∧ entry.value? = t.value? i := by
  have bound : i - 1 < t.cells.size := by have := inside.2; unfold size at this; omega
  have positive : i ≠ 0 := by omega
  refine ⟨t.cells[i - 1], ?_, ?_⟩
  · simp [entry, positive, Array.getElem?_eq_getElem bound]
  · simp [value?, positive, Array.getElem?_eq_getElem bound]

theorem entry_of_value? (held : t.value? i = some v) : t.entry i = .ok (.holding v) := by
  obtain ⟨entry, found, same⟩ := entry_of_inside (inside_of_value? held)
  rw [held] at same
  cases entry with
  | holding w => rw [found, Option.some.inj same]
  | vacant next => cases same

theorem get_of_value? (held : t.value? i = some v) : t.get i = .ok v := by
  simp [get, entry_of_value? held, bind, Except.bind, pure, Except.pure]

theorem get_of_vacant (inside : 1 ≤ i ∧ i ≤ t.size) (vacant : t.value? i = none) :
    t.get i = .error (.vacant i) := by
  obtain ⟨entry, found, same⟩ := entry_of_inside inside
  rw [vacant] at same
  cases entry with
  | holding w => cases same
  | vacant next => simp [get, found, bind, Except.bind, throw, throwThe, MonadExceptOf.throw]

theorem value?_of_get (read : t.get i = .ok v) : t.value? i = some v := by
  unfold get at read
  by_cases inside : 1 ≤ i ∧ i ≤ t.size
  · obtain ⟨entry, found, same⟩ := entry_of_inside inside
    rw [found] at read
    cases entry with
    | holding w =>
      rw [← same]
      exact congrArg some (Except.ok.inj read)
    | vacant next => simp [bind, Except.bind, throw, throwThe, MonadExceptOf.throw] at read
  · have missing : ∃ fault, t.entry i = .error fault := by
      unfold entry
      split
      · exact ⟨_, rfl⟩
      · rw [Array.getElem?_eq_none (by unfold size at inside; omega)]
        exact ⟨_, rfl⟩
    obtain ⟨fault, missing⟩ := missing
    rw [missing] at read
    simp [bind, Except.bind] at read

theorem occupied_of_value? (held : t.value? i = some v) : t.occupied i = .ok true := by
  have positive : i ≠ 0 := by have := inside_of_value? held; omega
  simp [occupied, positive, held]

theorem value?_of_occupied (occupied : t.occupied i = .ok true) : ∃ v, t.value? i = some v := by
  unfold Table.occupied at occupied
  split at occupied
  · simp at occupied
  · exact Option.isSome_iff_exists.mp (Except.ok.inj occupied)

/-! ### Changing a cell -/

theorem size_put (t : Table α) (i : Nat) (content : Entry α) : (t.put i content).size = t.size := by
  simp [put, size]

theorem value?_put (content : Entry α) (inside : 1 ≤ i ∧ i ≤ t.size) (j : Nat) :
    (t.put i content).value? j = if j = i then content.value? else t.value? j := by
  have bound : i - 1 < t.cells.size := by have := inside.2; unfold size at this; omega
  unfold value? put
  by_cases zero : j = 0
  · have different : j ≠ i := by omega
    simp [zero, show (0 : Nat) ≠ i by omega]
  · by_cases same : j = i
    · subst same
      simp [zero, bound]
    · have different : i - 1 ≠ j - 1 := by omega
      simp [zero, same, Array.getElem?_setIfInBounds_ne different]

theorem next_put (content : Entry α) (inside : 1 ≤ i ∧ i ≤ t.size) (positive : 1 ≤ j) (different : j ≠ i) :
    (t.put i content).next j = t.next j := by
  have apart : i - 1 ≠ j - 1 := by omega
  simp [next, put, Array.getElem?_setIfInBounds_ne apart]

theorem next_put_vacant (inside : 1 ≤ i ∧ i ≤ t.size) (following : Nat) :
    (t.put i (.vacant following)).next i = following := by
  have bound : i - 1 < t.cells.size := by have := inside.2; unfold size at this; omega
  simp [next, put, bound]

theorem set_ok (tidy : t.Tidy) (held : t.value? i = some v) (w : α) :
    ∃ s, t.set i w = .ok s ∧ s.Tidy ∧ s.size = t.size ∧ s.free = t.free ∧
      ∀ j, s.value? j = if j = i then some w else t.value? j := by
  have inside := inside_of_value? held
  have view := value?_put (.holding w) inside
  have links : (t.put i (.holding w)).Links t.head t.free := by
    refine tidy.links.congr fun k member => next_put _ inside (tidy.inside member).1 ?_
    rintro rfl
    exact tidy.not_mem_free held member
  obtain ⟨tidied, free⟩ := tidy_of_links (t := t.put i (.holding w)) links tidy.nodup
    (by
      intro j
      rw [size_put, view]
      refine (tidy.mem_free j).trans ?_
      by_cases same : j = i
      · subst same
        simp [held, Entry.value?]
      · simp [same])
    (by rw [size_put]; exact tidy.counted)
  refine ⟨t.put i (.holding w), ?_, tidied, size_put t i _, free, view⟩
  simp [set, entry_of_value? held, bind, Except.bind, pure, Except.pure]

theorem drop_ok (tidy : t.Tidy) (held : t.value? i = some v) :
    ∃ s, t.drop i = .ok (v, s) ∧ s.Tidy ∧ s.size = t.size ∧ s.free = i :: t.free ∧
      ∀ j, s.value? j = if j = i then none else t.value? j := by
  have inside := inside_of_value? held
  let s : Table α := { t.put i (.vacant t.head) with head := i, count := t.count - 1 }
  have view : ∀ j, s.value? j = if j = i then none else t.value? j :=
    value?_put (t := t) (.vacant t.head) inside
  have sized : s.size = t.size := size_put t i _
  have fresh : i ∉ t.free := tidy.not_mem_free held
  have links : s.Links i (i :: t.free) := by
    refine ⟨rfl, by omega, ?_⟩
    have following : s.next i = t.head := next_put_vacant inside t.head
    rw [following]
    refine tidy.links.congr fun k member => next_put _ inside (tidy.inside member).1 ?_
    rintro rfl
    exact fresh member
  -- There is a value to give up, so not every cell is vacant already.
  have some_left : t.free.length < t.size := by
    have short : (i :: t.free).length ≤ t.size := by
      refine length_le_size (List.nodup_cons.mpr ⟨fresh, tidy.nodup⟩) fun k member => ?_
      rcases List.mem_cons.mp member with rfl | member
      · exact inside
      · exact tidy.inside member
    simpa using short
  obtain ⟨tidied, free⟩ := tidy_of_links links (List.nodup_cons.mpr ⟨fresh, tidy.nodup⟩)
    (by
      intro j
      rw [view, sized, List.mem_cons, tidy.mem_free]
      by_cases same : j = i
      · simp [same, inside]
      · simp [same])
    (by
      have counted := tidy.counted
      have less : s.count = t.count - 1 := rfl
      rw [sized, List.length_cons]
      omega)
  refine ⟨s, ?_, tidied, sized, free, view⟩
  simp [drop, entry_of_value? held, bind, Except.bind, pure, Except.pure, s]

theorem value?_push (t : Table α) (count j : Nat) :
    ({ t with cells := t.cells.push (.holding v), count } : Table α).value? j =
      if j = t.size + 1 then some v else t.value? j := by
  unfold value? size
  by_cases zero : j = 0
  · simp [zero]
  · by_cases last : j = t.cells.size + 1
    · subst last
      simp [Entry.value?]
    · have different : j - 1 ≠ t.cells.size := by omega
      simp [zero, last, Array.getElem?_push, different]

theorem value?_beyond (t : Table α) : t.value? (t.size + 1) = none := by
  by_contra held
  obtain ⟨w, held⟩ := Option.ne_none_iff_exists'.mp held
  have := (inside_of_value? held).2
  omega

/-- With no cell to reuse, a new one comes behind the others. -/
theorem add_push (tidy : t.Tidy) (free : t.free = []) (v : α) :
    ∃ s, t.add v = (t.size + 1, s) ∧ s.Tidy ∧ s.free = [] ∧ s.size = t.size + 1 ∧
      ∀ j, s.value? j = if j = t.size + 1 then some v else t.value? j := by
  have none_free : t.head = 0 := by
    have links := tidy.links
    rwa [free] at links
  let s : Table α := { t with cells := t.cells.push (.holding v), count := t.count + 1 }
  have view : ∀ j, s.value? j = if j = t.size + 1 then some v else t.value? j := value?_push t _
  have sized : s.size = t.size + 1 := by simp [s, size]
  obtain ⟨tidied, kept⟩ := tidy_of_links (t := s) (l := []) none_free List.nodup_nil
    (by
      intro j
      rw [view, sized]
      refine ⟨fun member => by simp at member, ?_⟩
      rintro ⟨positive, bound, vacant⟩
      split at vacant
      · simp at vacant
      · rw [← free]
        exact (tidy.mem_free j).mpr ⟨positive, by omega, vacant⟩)
    (by
      have counted := tidy.counted
      rw [free] at counted
      rw [sized]
      simpa [s] using counted)
  exact ⟨s, by simp [add, none_free, s], tidied, kept, sized, view⟩

theorem add_reuse (tidy : t.Tidy) (free : t.free = i :: l) (v : α) :
    ∃ s, t.add v = (i, s) ∧ s.Tidy ∧ s.free = l ∧ s.size = t.size ∧
      ∀ j, s.value? j = if j = i then some v else t.value? j := by
  have links := tidy.links
  rw [free] at links
  obtain ⟨first, positive, rest⟩ := links
  have unique := tidy.nodup
  rw [free, List.nodup_cons] at unique
  have inside := tidy.inside (i := i) (by simp [free])
  let s : Table α := { t.put i (.holding v) with head := t.next i, count := t.count + 1 }
  have view : ∀ j, s.value? j = if j = i then some v else t.value? j := value?_put (.holding v) inside
  have sized : s.size = t.size := size_put t i _
  have apart : ∀ j ∈ l, 1 ≤ j ∧ j ≠ i := by
    intro j waiting
    refine ⟨(tidy.inside (by simp [free, waiting])).1, ?_⟩
    rintro rfl
    exact unique.1 waiting
  have links : s.Links (t.next i) l :=
    rest.congr fun k waiting => next_put _ inside (apart k waiting).1 (apart k waiting).2
  obtain ⟨tidied, kept⟩ := tidy_of_links (t := s) links unique.2
    (by
      intro j
      have member := tidy.mem_free j
      rw [free, List.mem_cons] at member
      rw [view, sized]
      by_cases same : j = i
      · subst same
        simp [unique.1]
      · simpa [same] using member)
    (by
      have counted := tidy.counted
      have more : s.count = t.count + 1 := rfl
      rw [free, List.length_cons] at counted
      omega)
  refine ⟨s, ?_, tidied, kept, sized, view⟩
  simp [add, first, positive, s]

theorem add_ok (tidy : t.Tidy) (v : α) :
    ∃ i s, t.add v = (i, s) ∧ s.Tidy ∧ t.value? i = none ∧ i = t.free.head?.getD (t.size + 1) ∧
      s.free = t.free.tail ∧ s.size = max t.size i ∧ ∀ j, s.value? j = if j = i then some v else t.value? j := by
  cases free : t.free with
  | nil =>
    obtain ⟨s, added, tidied, kept, sized, view⟩ := add_push tidy free v
    exact ⟨t.size + 1, s, added, tidied, t.value?_beyond, rfl, kept, by omega, view⟩
  | cons i later =>
    obtain ⟨s, added, tidied, kept, sized, view⟩ := add_reuse tidy free v
    have vacant := (tidy.mem_free i).mp (by simp [free])
    exact ⟨i, s, added, tidied, vacant.2.2, rfl, kept, by omega, view⟩

/-! ### Counting -/

theorem count_eq_length (tidy : t.Tidy) {occupied : List Nat} (nodup : occupied.Nodup)
    (mem_occupied : ∀ i, i ∈ occupied ↔ ∃ v, t.value? i = some v) :
    t.count = occupied.length ∧ occupied.length ≤ t.size := by
  have disjoint : List.Disjoint t.free occupied := by
    intro i free held
    obtain ⟨v, held⟩ := (mem_occupied i).mp held
    exact tidy.not_mem_free held free
  have all : (t.free ++ occupied).Perm (List.range' 1 t.size) := by
    refine (List.perm_ext_iff_of_nodup (tidy.nodup.append nodup disjoint) List.nodup_range').mpr ?_
    intro i
    rw [List.mem_append, tidy.mem_free, mem_occupied, List.mem_range'_1]
    constructor
    · rintro (⟨positive, bound, -⟩ | ⟨v, held⟩)
      · omega
      · have := inside_of_value? held
        omega
    · intro inside
      cases held : t.value? i with
      | none => exact Or.inl ⟨by omega, by omega, rfl⟩
      | some v => exact Or.inr ⟨v, rfl⟩
  have length := all.length_eq
  have counted := tidy.counted
  rw [List.length_append, List.length_range'] at length
  omega

end Propositional.Table
