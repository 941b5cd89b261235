import Propositional.Proofs.Arena.Inspection
import Propositional.Proofs.Rule.ChainReduction

/-!
# Comparing trees

Two nodes, in one arena or in two, are structurally equal if and only if they denote the same tree, with its
parentheses. The recursion that compares them and a loop that keeps the pairs still to be compared on a stack
give the same answer. The sequence of marks that is hashed closes nothing that it opens, but the mark of a node
tells how many trees follow it, so the marks of different trees differ.
-/

namespace Propositional

namespace Subtree

variable {x y : Subtree}

/-- The marks of a tree, each node before its children. -/
def marks : Subtree → List Arena.Mark
  | root f => .variant .root :: Arena.formulaMarks f
  | inner f => Arena.formulaMarks f

theorem formulaMarks_ne_root (f : Formula) (others : List Arena.Mark) :
    Arena.formulaMarks f ≠ .variant .root :: others := by
  change f.marksThen [] ≠ _
  cases f <;> simp

theorem marks_inj (same : x.marks = y.marks) : x = y := by
  cases x with
  | root f =>
    cases y with
    | root g => rw [Formula.formulaMarks_inj (List.cons.inj same).2]
    | inner g => exact absurd same.symm (formulaMarks_ne_root g _)
  | inner f =>
    cases y with
    | root g => exact absurd same (formulaMarks_ne_root f _)
    | inner g => rw [Formula.formulaMarks_inj same]

end Subtree

namespace Arena

variable {A B : Arena} {a b h : Handle} {t s : Term} {p q : Option Handle} {x y : Subtree} {trees : List Tree}
  {turns : Nat}

/-! ### The tree of a node -/

/-- The node is the top of a tree: it is of the variant of the top, with the same connective, name or value,
and its children are the tops of the trees below. -/
inductive Denotes (A : Arena) : Handle → Subtree → Prop
  | root {h child : Handle} {f : Formula} (read : A.shape h = .ok (.root child))
      (below : Denotes A child (.inner f)) : Denotes A h (.root f)
  | binary {h left right : Handle} {op : Connective} {f g : Formula}
      (read : A.shape h = .ok (.binary op left right)) (first : Denotes A left (.inner f))
      (second : Denotes A right (.inner g)) : Denotes A h (.inner (.binary op f g))
  | not {h child : Handle} {f : Formula} (read : A.shape h = .ok (.not child))
      (below : Denotes A child (.inner f)) : Denotes A h (.inner (.not f))
  | parens {h child : Handle} {f : Formula} (read : A.shape h = .ok (.parens child))
      (below : Denotes A child (.inner f)) : Denotes A h (.inner (.parens f))
  | id {h : Handle} {name : String} (read : A.shape h = .ok (.id name)) : Denotes A h (.inner (.id name))
  | literal {h : Handle} {value : Bool} (read : A.shape h = .ok (.literal value)) :
      Denotes A h (.inner (.literal value))

theorem Denotes.unique (first : A.Denotes h x) (second : A.Denotes h y) : x = y := by
  induction first generalizing y with
  | root read below ih =>
    cases second with
    | root read' below' =>
      cases read.symm.trans read'
      cases ih below'
      rfl
    | _ read' => cases read.symm.trans read'
  | binary read left right ihl ihr =>
    cases second with
    | binary read' left' right' =>
      cases read.symm.trans read'
      cases ihl left'
      cases ihr right'
      rfl
    | _ read' => cases read.symm.trans read'
  | not read below ih =>
    cases second with
    | not read' below' =>
      cases read.symm.trans read'
      cases ih below'
      rfl
    | _ read' => cases read.symm.trans read'
  | parens read below ih =>
    cases second with
    | parens read' below' =>
      cases read.symm.trans read'
      cases ih below'
      rfl
    | _ read' => cases read.symm.trans read'
  | id read =>
    cases second with
    | id read' =>
      cases read.symm.trans read'
      rfl
    | _ read' => cases read.symm.trans read'
  | literal read =>
    cases second with
    | literal read' =>
      cases read.symm.trans read'
      rfl
    | _ read' => cases read.symm.trans read'

theorem Holds.denotes (holds : A.Holds p t) : A.Denotes t.handle (.inner t.formula) := by
  have read := holds.shape
  induction t generalizing p with
  | binary h op left right ihl ihr =>
    have first := holds.child (c := left) (by simp [Term.children])
    have second := holds.child (c := right) (by simp [Term.children])
    exact .binary read (ihl first first.shape) (ihr second second.shape)
  | not h child ih =>
    have below := holds.child (c := child) (by simp [Term.children])
    exact .not read (ih below below.shape)
  | parens h child ih =>
    have below := holds.child (c := child) (by simp [Term.children])
    exact .parens read (ih below below.shape)
  | id h name => exact .id read
  | literal h value => exact .literal read

theorem Holds.denotes_of_shows (holds : A.Holds p t) (shows : A.Shows h t x) : A.Denotes h x := by
  cases x with
  | root f =>
    obtain ⟨read, rfl⟩ := shows
    exact .root read holds.denotes
  | inner f =>
    obtain ⟨rfl, rfl⟩ := shows
    exact holds.denotes

theorem Represents.exists_shows (represents : A.Represents trees) (live : A.isLive h = .ok true) :
    ∃ x t p, A.Holds p t ∧ t.size < A.live ∧ A.Shows h t x := by
  obtain ⟨n, held⟩ := cell?_of_isLive live
  rcases represents.locate_cell held with ⟨-, -, x, tree, rfl⟩ | ⟨C, t, rfl, rfl, -⟩
  · obtain ⟨before, after, rfl⟩ := List.append_of_mem tree
    have at_top : A.Represents ((Place.top before x.root after).fill x.body) := represents
    exact ⟨.root x.body.formula, x.body, _, at_top.holds, at_top.size_lt_live, shape_of_cell? at_top.holder, rfl⟩
  · exact ⟨.inner t.formula, t, _, represents.holds, represents.size_lt_live, rfl, rfl⟩

theorem Represents.live_lt_bound (represents : A.Represents trees) : A.live < A.bound := by
  have fits := represents.owns.live_eq
  unfold bound
  omega

/-! ### Equality -/

/-- Compares the pairs of nodes on a stack and what is below them, in a given number of turns. Each turn takes
the pair at the top off the stack and puts the pairs of their children there. -/
def equalFrom (A B : Arena) : Nat → List (Handle × Handle) → Checked Bool
  | _, [] => return true
  | 0, _ :: _ => throw .endless
  | turns + 1, (a, b) :: stack => do
    match ← A.shape a, ← B.shape b with
    | .root x, .root y | .not x, .not y | .parens x, .parens y => equalFrom A B turns ((x, y) :: stack)
    | .binary p l r, .binary q l' r' =>
      if p = q then equalFrom A B turns ((l, l') :: (r, r') :: stack) else return false
    | .id x, .id y => if x = y then equalFrom A B turns stack else return false
    | .literal x, .literal y => if x = y then equalFrom A B turns stack else return false
    | _, _ => return false

/-- When two terms have been at the top of the stack, either they differ or what was below them is left. -/
theorem Holds.equalFrom (left : A.Holds p t) (right : B.Holds q s) (turns : Nat)
    (stack : List (Handle × Handle)) :
    equalFrom A B (turns + t.size) ((t.handle, s.handle) :: stack) =
      if t.formula = s.formula then equalFrom A B turns stack else .ok false := by
  induction t generalizing p q s turns stack with
  | binary h op l r ihl ihr =>
    have enough : turns + (Term.binary h op l r).size = turns + r.size + l.size + 1 := by
      rw [Term.size_binary]
      omega
    rw [enough, Arena.equalFrom, left.shape, right.shape]
    -- The pair on the right waits on the stack until the pair on the left has been compared.
    cases s with
    | binary k op' l' r' =>
      have first := fun turns stack => ihl (s := l') (left.child (by simp [Term.children]))
        (right.child (by simp [Term.children])) turns stack
      have second := fun turns stack => ihr (s := r') (left.child (by simp [Term.children]))
        (right.child (by simp [Term.children])) turns stack
      by_cases same : op = op' <;> by_cases equal : l.formula = l'.formula <;>
        simp [Term.shape, Term.formula, bind, Except.bind, pure, Except.pure, same, equal, first, second]
    | _ => simp [Term.shape, Term.formula, bind, Except.bind, pure, Except.pure]
  | not h l ih | parens h l ih =>
    change Arena.equalFrom A B (turns + l.size + 1) _ = _
    rw [Arena.equalFrom, left.shape, right.shape]
    cases s with
    | not k l' | parens k l' =>
      have below := ih (s := l') (left.child (by simp [Term.children])) (right.child (by simp [Term.children]))
        turns stack
      simp [Term.shape, Term.formula, bind, Except.bind, pure, Except.pure, below]
    | _ => simp [Term.shape, Term.formula, bind, Except.bind, pure, Except.pure]
  | id h x | literal h x =>
    change Arena.equalFrom A B (turns + 1) _ = _
    rw [Arena.equalFrom, left.shape, right.shape]
    cases s <;> simp [Term.shape, Term.formula, bind, Except.bind, pure, Except.pure]

/-- A way to compare nodes, to a given depth or in a given number of turns: it is right about terms, goes from
two roots to what is below them, and tells nodes of different variants apart. -/
structure Compares (A B : Arena) (compare : Nat → Handle → Handle → Checked Bool) : Prop where
  terms : ∀ {p q t s n}, A.Holds p t → B.Holds q s → t.size ≤ n →
    compare n t.handle s.handle = .ok (decide (t.formula = s.formula))
  roots : ∀ {a b x y} n, A.shape a = .ok (.root x) → B.shape b = .ok (.root y) → compare (n + 1) a b = compare n x y
  variants : ∀ {a b s s'} n, A.shape a = .ok s → B.shape b = .ok s' → s.variant ≠ s'.variant →
    compare (n + 1) a b = .ok false

theorem Compares.decides {compare : Nat → Handle → Handle → Checked Bool} {n : Nat} (compares : Compares A B compare)
    (left : A.Holds p t) (right : B.Holds q s) (first : A.Shows a t x) (second : B.Shows b s y)
    (enough : t.size < n) : Decides (compare n a b) (x = y) := by
  obtain ⟨n, rfl⟩ : ∃ m, n = m + 1 := ⟨n - 1, by omega⟩
  cases x with
  | root f =>
    obtain ⟨read, rfl⟩ := first
    cases y with
    | root g =>
      obtain ⟨read', rfl⟩ := second
      rw [compares.roots n read read', compares.terms left right (by omega)]
      exact (decides_pure _).congr (by simp)
    | inner g =>
      obtain ⟨rfl, rfl⟩ := second
      rw [compares.variants n read right.shape (Ne.symm (Represents.variant_ne_root s))]
      exact decides_false (by simp)
  | inner f =>
    obtain ⟨rfl, rfl⟩ := first
    cases y with
    | root g =>
      obtain ⟨read', rfl⟩ := second
      rw [compares.variants n left.shape read' (Represents.variant_ne_root t)]
      exact decides_false (by simp)
    | inner g =>
      obtain ⟨rfl, rfl⟩ := second
      rw [compares.terms left right (by omega)]
      exact (decides_pure _).congr (by simp)

theorem compares_structuralEqTo (A B : Arena) : Compares A B (structuralEqTo A B) where
  terms left right deep := structuralEqTo_term left right deep
  roots n read read' := by
    rw [structuralEqTo, read, read']
    rfl
  variants := by
    intro a b s s' n read read' different
    rw [structuralEqTo, read, read']
    cases s <;> cases s' <;> simp [Shape.variant] at different <;> rfl

theorem compares_equalFrom (A B : Arena) : Compares A B fun n a b => equalFrom A B n [(a, b)] where
  terms := by
    intro p q t s n left right enough
    obtain ⟨spare, rfl⟩ : ∃ spare, n = spare + t.size := ⟨n - t.size, by omega⟩
    rw [left.equalFrom right, equalFrom]
    by_cases same : t.formula = s.formula <;> simp [same, pure, Except.pure]
  roots n read read' := by
    rw [equalFrom, read, read']
    rfl
  variants := by
    intro a b s s' n read read' different
    rw [equalFrom, read, read']
    cases s <;> cases s' <;> simp [Shape.variant] at different <;> rfl

/-! ### Marks -/

theorem fingerprint_of_shows (holds : A.Holds p t) (small : t.size < A.bound) (shows : A.Shows h t x) :
    A.fingerprint h = .ok x.marks := by
  cases x with
  | root f =>
    obtain ⟨read, rfl⟩ := shows
    obtain ⟨⟨shape, parent⟩, held, rfl⟩ := cell?_of_shape read
    have folded := fold_root (fun _ => collectShape (fun _ => marks) ⟨0⟩) (x := ⟨h, t⟩) held holds small
    rw [Term.fold_formula] at folded
    rw [fingerprint, collect]
    change (do return (← A.fold (fun _ => collectShape (fun _ => marks) ⟨0⟩) h) []) = _
    rw [folded]
    rfl
  | inner f =>
    obtain ⟨rfl, rfl⟩ := shows
    exact fingerprint_term holds small

/-- The one tree that a node denotes, and the marks that are listed and hashed for it. -/
structure Portrays (A : Arena) (h : Handle) (x : Subtree) (xs : List Mark) : Prop where
  denotes_iff : ∀ z, A.Denotes h z ↔ z = x
  fingerprint : A.fingerprint h = .ok xs
  stacked : ∀ turns, A.live ≤ turns → A.collectFrom (fun _ => marks) turns [h] = .ok xs
  hashed : A.structuralHash h = .ok (hash xs)

theorem Represents.portrays (represents : A.Represents trees) (live : A.isLive h = .ok true)
    (holds : A.Holds p t) (small : t.size < A.live) (shows : A.Shows h t x) : A.Portrays h x x.marks := by
  have printed := fingerprint_of_shows holds (Nat.lt_trans small represents.live_lt_bound) shows
  have denoted := holds.denotes_of_shows shows
  refine ⟨fun z => ⟨fun other => other.unique denoted, fun same => same ▸ denoted⟩, printed, ?_, ?_⟩
  · intro turns enough
    rw [represents.collectFrom_eq live _ enough]
    exact printed
  · rw [structuralHash, printed]
    rfl

/-! ### Both characterize the tree -/

/-- Live nodes of well-formed arenas each denote one tree. They are structurally equal if and only if these
trees are the same, and so are the sequences of marks that are hashed, so that equal trees have equal hashes. -/
theorem structuralEqIn_exact (wellFormed : A.WellFormed) (wellFormed' : B.WellFormed)
    (live : A.isLive a = .ok true) (live' : B.isLive b = .ok true) :
    ∃ x y xs ys, A.Portrays a x xs ∧ B.Portrays b y ys ∧ Decides (A.structuralEqIn a B b) (x = y) ∧
      (∀ turns, A.live ≤ turns → Decides (equalFrom A B turns [(a, b)]) (x = y)) ∧ (xs = ys ↔ x = y) ∧
      (x = y → A.structuralHash a = B.structuralHash b) := by
  obtain ⟨trees, represents⟩ := wellFormed.exists_represents
  obtain ⟨others, represents'⟩ := wellFormed'.exists_represents
  obtain ⟨x, t, p, left, small, first⟩ := represents.exists_shows live
  obtain ⟨y, s, q, right, small', second⟩ := represents'.exists_shows live'
  have portrayed := represents.portrays live left small first
  have portrayed' := represents'.portrays live' right small' second
  refine ⟨x, y, x.marks, y.marks, portrayed, portrayed', ?_, fun turns enough => ?_,
    ⟨Subtree.marks_inj, congrArg Subtree.marks⟩, fun same => ?_⟩
  · have fits := represents.live_lt_bound
    have enough : A.bound ≤ A.bound * B.bound := Nat.le_mul_of_pos_right _ (Nat.succ_pos _)
    exact (compares_structuralEqTo A B).decides left right first second (by omega)
  · exact (compares_equalFrom A B).decides left right first second (by omega)
  · rw [portrayed.hashed, portrayed'.hashed, same]

/-- `x AND TRUE` and `x OR y` differ in the connective, and the name `x` is the same in both. -/
theorem structuralEqIn_exact_pairs :
    (∃ xs ys, negatedPair.Portrays ⟨3⟩ (.inner (.binary .and (.id "x") (.literal true))) xs ∧
      regroupedPair.Portrays ⟨3⟩ (.inner (.binary .or (.id "x") (.id "y"))) ys ∧ xs ≠ ys ∧
      negatedPair.structuralEqIn ⟨3⟩ regroupedPair ⟨3⟩ ≠ .ok true) ∧
    negatedPair.structuralEqIn ⟨1⟩ regroupedPair ⟨7⟩ = .ok true ∧
      negatedPair.structuralHash ⟨1⟩ = regroupedPair.structuralHash ⟨7⟩ := by
  constructor
  · obtain ⟨x, y, xs, ys, left, right, decides, -, marked, -⟩ := structuralEqIn_exact (a := ⟨3⟩) (b := ⟨3⟩)
      negatedPair_wellFormed regroupedPair_wellFormed rfl rfl
    cases (left.denotes_iff _).mp (.binary rfl (.id rfl) (.literal rfl))
    cases (right.denotes_iff _).mp (.binary rfl (.id rfl) (.id rfl))
    refine ⟨xs, ys, left, right, fun same => ?_, fun same => ?_⟩
    · cases marked.mp same
    · cases decides.eq_ok_true_iff.mp same
  · obtain ⟨x, y, xs, ys, left, right, decides, -, -, hashed⟩ := structuralEqIn_exact (a := ⟨1⟩) (b := ⟨7⟩)
      negatedPair_wellFormed regroupedPair_wellFormed rfl rfl
    cases (left.denotes_iff _).mp (.id rfl)
    cases (right.denotes_iff _).mp (.id rfl)
    exact ⟨decides.eq_ok_true_iff.mpr rfl, hashed rfl⟩

end Arena

end Propositional
