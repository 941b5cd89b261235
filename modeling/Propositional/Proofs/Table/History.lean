import Propositional.Proofs.Table

/-!
# Histories of tables

What a table holds, which cells wait for reuse and in which order, and how many cells it has, can all
be read off the list of what has been done to it since it was empty. The free list needs no memory of
its own for that: it is what the links in the vacant cells lead through.
-/

namespace Propositional.Table

inductive Action (α : Type) where
  | add (value : α)
  | drop (index : Nat)
  | overwrite (index : Nat) (value : α)

/-- What was done to a table: which cell was concerned, and which value came into it or was taken out. -/
inductive Event (α : Type) where
  | added (index : Nat) (value : α)
  | dropped (index : Nat) (value : α)
  | overwritten (index : Nat) (value : α)

variable {α : Type} {t s : Table α} {history : List (Event α)} {actions : List (Action α)} {action : Action α}
  {event : Event α} {i j : Nat} {v : α}

namespace Event

def asked : Event α → Action α
  | added _ value => .add value
  | dropped index _ => .drop index
  | overwritten index value => .overwrite index value

def index : Event α → Nat
  | added index _ | dropped index _ | overwritten index _ => index

def leaves : Event α → Option α
  | added _ value | overwritten _ value => some value
  | dropped _ _ => none

def drops : Event α → Nat → Bool
  | dropped index _, i => index = i
  | _, _ => false

end Event

def perform (t : Table α) : Action α → Except Fault (Event α × Table α)
  | .add value =>
    let (index, t) := t.add value
    return (.added index value, t)
  | .drop index => do
    let (value, t) ← t.drop index
    return (.dropped index value, t)
  | .overwrite index value => return (.overwritten index value, ← t.set index value)

def record (state : List (Event α) × Table α) (action : Action α) :
    Except Fault (List (Event α) × Table α) := do
  let (event, t) ← state.2.perform action
  return (event :: state.1, t)

/-- Does one thing after the other to an empty table. The history has the latest event first. -/
def run (actions : List (Action α)) : Except Fault (List (Event α) × Table α) :=
  actions.foldlM record ([], {})

def Fits (t : Table α) : Action α → Prop
  | .add _ => True
  | .drop index | .overwrite index _ => t.occupied index = .ok true

def Legal (t : Table α) : List (Action α) → Prop
  | [] => True
  | action :: later => t.Fits action ∧ ∀ event s, t.perform action = .ok (event, s) → s.Legal later

/-! ### What a history says -/

/-- The value that was stored in a cell last, unless the cell has been dropped since. -/
def stored (history : List (Event α)) (i : Nat) : Option α :=
  (history.find? fun event => event.index = i).bind Event.leaves

def sinceDrop (history : List (Event α)) (i : Nat) : Nat := history.findIdx fun event => event.drops i

def storedIn (history : List (Event α)) : List Nat :=
  (history.map Event.index).dedup.filter fun i => (stored history i).isSome

theorem stored_cons (event : Event α) (history : List (Event α)) (i : Nat) :
    stored (event :: history) i = if i = event.index then event.leaves else stored history i := by
  unfold stored
  rw [List.find?_cons]
  by_cases same : i = event.index
  · simp [same]
  · simp [same, Ne.symm same]

theorem sinceDrop_cons (event : Event α) (history : List (Event α)) (i : Nat) :
    sinceDrop (event :: history) i = if event.drops i then 0 else sinceDrop history i + 1 := by
  unfold sinceDrop
  rw [List.findIdx_cons]
  cases event.drops i <;> rfl

theorem mem_storedIn : i ∈ storedIn history ↔ ∃ v, stored history i = some v := by
  rw [storedIn, List.mem_filter, List.mem_dedup, Option.isSome_iff_exists]
  refine ⟨And.right, fun held => ⟨?_, held⟩⟩
  obtain ⟨v, held⟩ := held
  obtain ⟨event, found, -⟩ := Option.bind_eq_some_iff.mp held
  have same : event.index = i := by simpa using List.find?_some found
  exact List.mem_map.mpr ⟨event, List.mem_of_find?_eq_some found, same⟩

/-! ### Tables with a history -/

/-- The table is what its history says. The free list is what the links lead through, up to where they
end. -/
structure Follows (t : Table α) (history : List (Event α)) : Prop where
  links : t.Links t.head t.free
  free_nodup : t.free.Nodup
  mem_free : ∀ i, i ∈ t.free ↔ 1 ≤ i ∧ i ≤ t.size ∧ stored history i = none
  latest_first : t.free.Pairwise fun i j => sinceDrop history i < sinceDrop history j
  occupied : ∀ i, i ≠ 0 → t.occupied i = .ok (stored history i).isSome
  get : ∀ i v, t.get i = .ok v ↔ stored history i = some v
  count : t.count = (storedIn history).length
  mem_indices : ∀ i, i ∈ t.indices ↔ ∃ v, stored history i = some v
  ascending : t.indices.Pairwise (· < ·)
  /-- There are as many cells as have ever held a value at the same time. -/
  peak : IsGreatest {n | ∃ earlier, earlier <:+ history ∧ (storedIn earlier).length = n} t.size

/-- What comes of an action on a table with a history: a new value goes into the cell that was given up
last, or into a new one if none is free, and what is taken out is what was stored. -/
def Answers (t : Table α) (history : List (Event α)) : Action α → Event α → Prop
  | .add value, event => ∃ i, event = .added i value ∧ i = t.free.head?.getD (t.size + 1) ∧ i ≠ 0 ∧
      stored history i = none
  | .drop i, event => ∃ value, event = .dropped i value ∧ stored history i = some value
  | .overwrite i value, event => event = .overwritten i value

structure Kept (t : Table α) (history : List (Event α)) : Prop where
  tidy : t.Tidy
  value? : ∀ i, t.value? i = stored history i
  latest_first : t.free.Pairwise fun i j => sinceDrop history i < sinceDrop history j
  peak : IsGreatest {n | ∃ earlier, earlier <:+ history ∧ (storedIn earlier).length = n} t.size

theorem count_eq (tidy : t.Tidy) (value? : ∀ i, t.value? i = stored history i) :
    t.count = (storedIn history).length ∧ (storedIn history).length ≤ t.size := by
  refine count_eq_length tidy ((List.nodup_dedup _).filter _) fun i => ?_
  rw [mem_storedIn, value?]

theorem kept_empty : ({} : Table α).Kept [] where
  tidy := by
    refine ⟨List.nodup_nil, fun i => ⟨fun member => ?_, ?_⟩, rfl⟩
    · cases member
    · rintro ⟨positive, inside, -⟩
      simp [size] at inside
      omega
  value? i := by simp [Table.value?, stored]
  latest_first := List.Pairwise.nil
  peak := by
    refine ⟨⟨[], List.nil_suffix, rfl⟩, ?_⟩
    rintro n ⟨earlier, before, rfl⟩
    rw [List.eq_nil_of_suffix_nil before]
    exact Nat.zero_le _

theorem Kept.follows (kept : t.Kept history) : t.Follows history where
  links := kept.tidy.links
  free_nodup := kept.tidy.nodup
  mem_free i := by rw [kept.tidy.mem_free, kept.value?]
  latest_first := kept.latest_first
  occupied i positive := by rw [Table.occupied, if_neg positive, kept.value?]
  get i v := by
    rw [← kept.value?]
    exact ⟨value?_of_get, get_of_value?⟩
  count := (count_eq kept.tidy kept.value?).1
  mem_indices i := by
    rw [indices, List.mem_filter, List.mem_range'_1, Option.isSome_iff_exists, ← kept.value?]
    refine ⟨And.right, fun held => ⟨?_, held⟩⟩
    obtain ⟨v, held⟩ := held
    have := inside_of_value? held
    omega
  ascending := (List.pairwise_lt_range').filter _
  peak := kept.peak

/-! ### One action -/

/-- A table that grows has no vacant cell left, so all its cells are in use at that moment. -/
theorem peak_cons (kept : t.Kept history) (tidy : s.Tidy)
    (value? : ∀ i, s.value? i = stored (event :: history) i) (grown : t.size ≤ s.size)
    (full : s.size ≠ t.size → s.free = []) :
    IsGreatest {n | ∃ earlier, earlier <:+ event :: history ∧ (storedIn earlier).length = n} s.size := by
  obtain ⟨count, fits⟩ := count_eq tidy value?
  obtain ⟨⟨earlier, before, reached⟩, bound⟩ := kept.peak
  constructor
  · by_cases same : s.size = t.size
    · exact ⟨earlier, before.trans (List.suffix_cons event history), by rw [reached, same]⟩
    · have counted := tidy.counted
      rw [full same, List.length_nil] at counted
      exact ⟨event :: history, List.suffix_refl _, by omega⟩
  · rintro n ⟨earlier, before, rfl⟩
    rcases List.suffix_cons_iff.mp before with rfl | before
    · exact fits
    · exact Nat.le_trans (bound ⟨earlier, before, rfl⟩) grown

theorem latest_first_cons (event : Event α) (history : List (Event α)) (free : List Nat)
    (latest_first : free.Pairwise fun i j => sinceDrop history i < sinceDrop history j)
    (others : ∀ i ∈ free, event.drops i = false) :
    free.Pairwise fun i j => sinceDrop (event :: history) i < sinceDrop (event :: history) j := by
  refine latest_first.imp_of_mem fun {i j} first second later => ?_
  rw [sinceDrop_cons, sinceDrop_cons, others i first, others j second]
  simpa using later

/-- After an event that changed its own cell only, the table is kept if its free list is as the event has it. -/
theorem Kept.cons (kept : t.Kept history) (event : Event α) (tidy : s.Tidy)
    (view : ∀ j, s.value? j = if j = event.index then event.leaves else t.value? j)
    (latest_first : s.free.Pairwise fun i j => sinceDrop (event :: history) i < sinceDrop (event :: history) j)
    (grown : t.size ≤ s.size) (full : s.size ≠ t.size → s.free = []) :
    s.Kept (event :: history) ∧ ∀ j, j ≠ event.index → s.value? j = t.value? j := by
  have value? : ∀ j, s.value? j = stored (event :: history) j := by
    intro j
    rw [view, stored_cons, kept.value?]
  refine ⟨⟨tidy, value?, latest_first, peak_cons kept tidy value? grown full⟩, fun j other => ?_⟩
  rw [view, if_neg other]

/-- The action succeeds with the right answer, changes one cell, and keeps what is kept. -/
def Succeeds (t : Table α) (history : List (Event α)) (action : Action α) : Prop :=
  ∃ event s, t.perform action = .ok (event, s) ∧ event.asked = action ∧ Answers t history action event ∧
    s.Kept (event :: history) ∧ ∀ j, j ≠ event.index → s.value? j = t.value? j

theorem Kept.index_of_add (kept : t.Kept history) (which : i = t.free.head?.getD (t.size + 1)) :
    i ≠ 0 ∧ (t.size < i → t.free.tail = []) := by
  cases waiting : t.free with
  | nil =>
    rw [waiting] at which
    exact ⟨which ▸ Nat.succ_ne_zero _, fun _ => rfl⟩
  | cons k later =>
    -- A cell that waits for reuse is one of the table, so the table does not become larger.
    rw [waiting] at which
    obtain rfl : i = k := which
    have inside := kept.tidy.inside (i := i) (by simp [waiting])
    exact ⟨by omega, fun beyond => by omega⟩

theorem Kept.perform_add (kept : t.Kept history) (value : α) : t.Succeeds history (.add value) := by
  obtain ⟨i, s, added, tidy, vacant, which, free, size, view⟩ := add_ok kept.tidy value
  obtain ⟨positive, full⟩ := kept.index_of_add which
  have latest_first := latest_first_cons (.added i value) history t.free.tail
    (kept.latest_first.sublist (List.tail_sublist _)) fun _ _ => rfl
  obtain ⟨kept', elsewhere⟩ := kept.cons (.added i value) tidy view (free ▸ latest_first) (by omega)
    fun grown => free ▸ full (by omega)
  refine ⟨.added i value, s, ?_, rfl, ⟨i, rfl, which, positive, by rw [← kept.value?, vacant]⟩, kept', elsewhere⟩
  rw [Table.perform, added]
  rfl

theorem Kept.perform_drop (kept : t.Kept history) (held : t.value? i = some v) : t.Succeeds history (.drop i) := by
  obtain ⟨s, dropped, tidy, size, free, view⟩ := drop_ok kept.tidy held
  have others : ∀ j ∈ t.free, (Event.dropped i v).drops j = false := by
    intro j member
    have different : i ≠ j := by
      rintro rfl
      exact kept.tidy.not_mem_free held member
    simpa [Event.drops] using different
  have latest_first : (i :: t.free).Pairwise fun i' j =>
      sinceDrop (.dropped i v :: history) i' < sinceDrop (.dropped i v :: history) j := by
    refine List.pairwise_cons.mpr ⟨fun j member => ?_, latest_first_cons _ _ _ kept.latest_first others⟩
    rw [sinceDrop_cons, sinceDrop_cons, others j member]
    simp [Event.drops]
  obtain ⟨kept', elsewhere⟩ := kept.cons (.dropped i v) tidy view (free ▸ latest_first) (by omega)
    fun grown => absurd size grown
  refine ⟨.dropped i v, s, ?_, rfl, ⟨v, rfl, by rw [← kept.value?, held]⟩, kept', elsewhere⟩
  rw [Table.perform, dropped]
  rfl

theorem Kept.perform_overwrite (kept : t.Kept history) (held : t.value? i = some v) (w : α) :
    t.Succeeds history (.overwrite i w) := by
  obtain ⟨s, written, tidy, size, free, view⟩ := set_ok kept.tidy held w
  have latest_first := latest_first_cons (.overwritten i w) history t.free kept.latest_first fun _ _ => rfl
  obtain ⟨kept', elsewhere⟩ := kept.cons (.overwritten i w) tidy view (free ▸ latest_first) (by omega)
    fun grown => absurd size grown
  refine ⟨.overwritten i w, s, ?_, rfl, rfl, kept', elsewhere⟩
  rw [Table.perform, written]
  rfl

theorem Kept.perform (kept : t.Kept history) (fits : t.Fits action) : t.Succeeds history action := by
  cases action with
  | add value => exact kept.perform_add value
  | drop i =>
    obtain ⟨v, held⟩ := value?_of_occupied fits
    exact kept.perform_drop held
  | overwrite i w =>
    obtain ⟨v, held⟩ := value?_of_occupied fits
    exact kept.perform_overwrite held w

/-! ### Runs -/

theorem Kept.run (kept : t.Kept history) (legal : t.Legal actions) :
    ∃ events s, actions.foldlM record (history, t) = .ok (events ++ history, s) ∧
      events.map Event.asked = actions.reverse ∧ s.Kept (events ++ history) := by
  induction actions generalizing t history with
  | nil => exact ⟨[], t, rfl, rfl, kept⟩
  | cons action later ih =>
    obtain ⟨fits, rest⟩ := legal
    obtain ⟨event, s, performed, asked, -, kept, -⟩ := kept.perform fits
    obtain ⟨events, r, ran, same, kept⟩ := ih kept (rest event s performed)
    have whole : events ++ event :: history = (events ++ [event]) ++ history := by simp
    rw [whole] at ran kept
    refine ⟨events ++ [event], r, ?_, ?_, kept⟩
    · rw [List.foldlM_cons, record, performed]
      exact ran
    · rw [List.map_append, same, List.map_singleton, asked, List.reverse_cons]

/-- Every legal run from an empty table succeeds and leaves a table that is what its history says. Whatever
fits then succeeds too, with the right answer, and changes no cell but its own. -/
theorem run_follows (legal : ({} : Table α).Legal actions) :
    ∃ history t, run actions = .ok (history, t) ∧ history.map Event.asked = actions.reverse ∧ t.Follows history ∧
      ∀ action, t.Fits action → ∃ event s, t.perform action = .ok (event, s) ∧ event.asked = action ∧
        Answers t history action event ∧ s.Follows (event :: history) ∧
        ∀ j, j ≠ event.index → ∀ v, s.get j = .ok v ↔ t.get j = .ok v := by
  obtain ⟨history, t, ran, same, kept⟩ := kept_empty.run legal
  rw [List.append_nil] at ran kept
  refine ⟨history, t, ran, same, kept.follows, fun action fits => ?_⟩
  obtain ⟨event, s, performed, asked, answers, after, elsewhere⟩ := kept.perform fits
  refine ⟨event, s, performed, asked, answers, after.follows, fun j other v => ?_⟩
  have unchanged := elsewhere j other
  constructor
  · intro read
    exact get_of_value? (unchanged ▸ value?_of_get read)
  · intro read
    exact get_of_value? (unchanged ▸ value?_of_get read)

theorem legal_cons (fits : t.Fits action) (performed : t.perform action = .ok (event, s))
    (later : s.Legal actions) : t.Legal (action :: actions) := by
  refine ⟨fits, fun event' s' performed' => ?_⟩
  obtain ⟨rfl, rfl⟩ := Prod.mk.inj (Except.ok.inj (performed.symm.trans performed'))
  exact later

def reusing : List (Action Char) := [.add 'a', .add 'b', .add 'c', .drop 1, .drop 2, .add 'd']

theorem run_follows_reusing : ∃ history t, run reusing = .ok (history, t) ∧ t.Follows history ∧
    t.free = [1] ∧ t.get 2 = .ok 'd' ∧ t.size = 3 := by
  have legal : ({} : Table Char).Legal reusing :=
    legal_cons trivial rfl (legal_cons trivial rfl (legal_cons trivial rfl (legal_cons rfl rfl
      (legal_cons rfl rfl (legal_cons trivial rfl trivial)))))
  obtain ⟨history, t, ran, -, follows, -⟩ := run_follows legal
  obtain ⟨-, rfl⟩ := Prod.mk.inj (Except.ok.inj (ran.symm.trans (show run reusing = .ok (_, _) from rfl)))
  exact ⟨history, _, ran, follows, rfl, rfl, rfl⟩

end Propositional.Table
