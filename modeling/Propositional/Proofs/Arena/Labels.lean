import Propositional.Proofs.Arena.Drawing
import Propositional.Proofs.Token.Lexer

/-!
# Labels of names

The label of a name stands between quotes, and quotes of the name are written with a backslash in front of them.
A backslash of the name is written as it is, so at the end of the name it stands in front of the closing quote.
Reading the label gives back the name, unless a backslash of the name is read together with a quote behind it.
-/

namespace Propositional.Arena

/-! ### Quoted strings -/

/-- The rest of a string read behind some characters of it. -/
def say (chars : List Char) : Option (List Char × List Char) → Option (List Char × List Char) :=
  Option.map (Prod.map (chars ++ ·) id)

/-- Reads a quoted string behind its opening quote, and gives what it says and what is left behind its closing
quote. A backslash makes a quote behind it part of the string. It is up to the reader whether two backslashes are a
pair, of which neither has a part in what follows. -/
def readQuoted (pairs : Bool) : List Char → Option (List Char × List Char)
  | [] => none
  | [c] => if c = '\x22' then some ([], []) else none
  | c :: d :: rest =>
    if c = '\x22' then some ([], d :: rest)
    else if c = '\\' ∧ d = '\x22' then say [d] (readQuoted pairs rest)
    else if c = '\\' ∧ d = '\\' ∧ pairs then say [c, d] (readQuoted pairs rest)
    else say [c] (readQuoted pairs (d :: rest))

/-- No backslash of the name is read together with a quote that is written behind it. -/
def Sealed (pairs : Bool) : List Char → Prop
  | [] => True
  | [c] => c ≠ '\\'
  | c :: d :: rest => if c = '\\' ∧ pairs then d ≠ '\x22' ∧ Sealed pairs rest else Sealed pairs (d :: rest)

variable {pairs : Bool} {c d : Char} {name rest later s : List Char}

theorem exists_of_say {chars : List Char} {result : Option (List Char × List Char)}
    (said : say chars result = some (s, rest)) : ∃ s', result = some (s', rest) := by
  obtain ⟨⟨s', rest'⟩, read, same⟩ := Option.map_eq_some_iff.mp said
  obtain ⟨-, rfl⟩ := Prod.mk.inj same
  exact ⟨s', read⟩

theorem readQuoted_close (pairs : Bool) (rest : List Char) :
    readQuoted pairs ('\x22' :: rest) = some ([], rest) := by
  cases rest with
  | nil => rfl
  | cons d rest =>
    unfold readQuoted
    exact if_pos rfl

theorem readQuoted_escaped (pairs : Bool) (rest : List Char) :
    readQuoted pairs ('\\' :: '\x22' :: rest) = say ['\x22'] (readQuoted pairs rest) := by
  rw [readQuoted, if_neg (by decide), if_pos ⟨rfl, rfl⟩]

theorem readQuoted_plain (plain : c ≠ '\x22') (solid : c ≠ '\\') (rest : List Char) :
    readQuoted pairs (c :: rest) = say [c] (readQuoted pairs rest) := by
  cases rest with
  | nil =>
    unfold readQuoted
    exact if_neg plain
  | cons d rest => rw [readQuoted, if_neg plain, if_neg (by simp [solid]), if_neg (by simp [solid])]

theorem readQuoted_pair (rest : List Char) :
    readQuoted true ('\\' :: '\\' :: rest) = say ['\\', '\\'] (readQuoted true rest) := by
  rw [readQuoted, if_neg (by decide), if_neg (by decide), if_pos ⟨rfl, rfl, rfl⟩]

theorem readQuoted_backslash (plain : d ≠ '\x22') (single : d = '\\' → pairs = false) (rest : List Char) :
    readQuoted pairs ('\\' :: d :: rest) = say ['\\'] (readQuoted pairs (d :: rest)) := by
  rw [readQuoted, if_neg (by decide), if_neg (by simp [plain]), if_neg (by simpa using single)]

theorem length_of_readQuoted (read : readQuoted pairs name = some (s, rest)) : rest.length < name.length := by
  fun_induction readQuoted pairs name generalizing s with
  | case1 => cases read
  | case2 =>
    obtain ⟨-, rfl⟩ := Prod.mk.inj (Option.some.inj read)
    simp
  | case3 => cases read
  | case4 =>
    obtain ⟨-, rfl⟩ := Prod.mk.inj (Option.some.inj read)
    simp
  | case5 _ _ _ _ _ ih | case6 _ _ _ _ _ _ ih | case7 _ _ _ _ _ _ ih =>
    obtain ⟨s', read⟩ := exists_of_say read
    have shorter := ih read
    simp only [List.length_cons] at shorter ⊢
    omega

/-! ### The label of a name -/

theorem quoteLabel_plain (plain : c ≠ '\x22') (name : List Char) : quoteLabel (c :: name) = c :: quoteLabel name := by
  unfold quoteLabel
  rw [List.flatMap_cons, if_neg plain]
  rfl

theorem exists_quoteLabel_cons (d : Char) (rest : List Char) :
    ∃ e label, e ≠ '\x22' ∧ quoteLabel (d :: rest) = e :: label := by
  by_cases quote : d = '\x22'
  · subst quote
    exact ⟨'\\', _, by decide, rfl⟩
  · exact ⟨d, _, quote, quoteLabel_plain quote rest⟩

theorem readQuoted_label_cons (solid : c ≠ '\\') (rest text : List Char) :
    readQuoted pairs (quoteLabel (c :: rest) ++ text) = say [c] (readQuoted pairs (quoteLabel rest ++ text)) := by
  by_cases quote : c = '\x22'
  · subst quote
    exact readQuoted_escaped pairs _
  · rw [quoteLabel_plain quote]
    exact readQuoted_plain quote solid _

theorem readQuoted_label_single (d : Char) (rest text : List Char) :
    readQuoted false (quoteLabel ('\\' :: d :: rest) ++ text) =
      say ['\\'] (readQuoted false (quoteLabel (d :: rest) ++ text)) := by
  obtain ⟨e, label, plain, written⟩ := exists_quoteLabel_cons d rest
  rw [quoteLabel_plain (by decide), written]
  exact readQuoted_backslash plain (fun _ => rfl) _

theorem readQuoted_label_pair (plain : d ≠ '\x22') (rest text : List Char) :
    readQuoted true (quoteLabel ('\\' :: d :: rest) ++ text) =
      say ['\\', d] (readQuoted true (quoteLabel rest ++ text)) := by
  rw [quoteLabel_plain (by decide), quoteLabel_plain plain]
  by_cases backslash : d = '\\'
  · subst backslash
    exact readQuoted_pair _
  · have first : readQuoted true ('\\' :: d :: (quoteLabel rest ++ text)) = _ :=
      readQuoted_backslash plain (fun same => absurd same backslash) _
    rw [readQuoted_plain plain backslash] at first
    refine first.trans ?_
    unfold say
    rw [Option.map_map]
    rfl

theorem readQuoted_quoteLabel (whole : Sealed pairs name) (later : List Char) :
    readQuoted pairs (quoteLabel name ++ '\x22' :: later) = some (name, later) := by
  fun_induction Sealed pairs name with
  | case1 => exact readQuoted_close _ _
  | case2 c =>
    rw [readQuoted_label_cons whole]
    exact congrArg (say [c]) (readQuoted_close pairs later)
  | case3 c d rest pair ih =>
    obtain ⟨rfl, rfl⟩ := pair
    rw [readQuoted_label_pair whole.1, ih whole.2]
    rfl
  | case4 c d rest single ih =>
    by_cases backslash : c = '\\'
    · obtain rfl : pairs = false := by simpa [backslash] using single
      rw [backslash, readQuoted_label_single, ih whole]
      rfl
    · rw [readQuoted_label_cons backslash, ih whole]
      rfl

theorem readQuoted_of_not_sealed (broken : ¬ Sealed pairs name) (later s : List Char) :
    readQuoted pairs (quoteLabel name ++ '\x22' :: later) ≠ some (s, later) := by
  fun_induction Sealed pairs name generalizing s with
  | case1 => exact absurd trivial broken
  | case2 c =>
    -- The closing quote is taken for a character, and what is behind it is read on.
    obtain rfl : c = '\\' := not_not.mp broken
    intro read
    obtain ⟨s', read⟩ := exists_of_say ((readQuoted_escaped pairs later).symm.trans read)
    exact Nat.lt_irrefl _ (length_of_readQuoted read)
  | case3 c d rest pair ih =>
    obtain ⟨rfl, rfl⟩ := pair
    intro read
    by_cases quote : d = '\x22'
    · -- The backslash of the name makes a pair with the one that was to escape the quote.
      subst quote
      have closed : readQuoted true ('\\' :: '\\' :: '\x22' :: (quoteLabel rest ++ '\x22' :: later)) =
          some (['\\', '\\'], quoteLabel rest ++ '\x22' :: later) := by
        rw [readQuoted_pair, readQuoted_close]
        rfl
      obtain ⟨-, same⟩ := Prod.mk.inj (Option.some.inj (closed.symm.trans read))
      have lengths := congrArg List.length same
      simp only [List.length_append, List.length_cons] at lengths
      omega
    · rw [readQuoted_label_pair quote] at read
      obtain ⟨s', read⟩ := exists_of_say read
      exact ih (fun whole => broken ⟨quote, whole⟩) s' read
  | case4 c d rest single ih =>
    intro read
    by_cases backslash : c = '\\'
    · obtain rfl : pairs = false := by simpa [backslash] using single
      rw [backslash, readQuoted_label_single] at read
      obtain ⟨s', read⟩ := exists_of_say read
      exact ih broken s' read
    · rw [readQuoted_label_cons backslash] at read
      obtain ⟨s', read⟩ := exists_of_say read
      exact ih broken s' read

theorem sealed_single_iff : Sealed false name ↔ name.getLast? ≠ some '\\' := by
  fun_induction Sealed false name with
  | case1 => simp
  | case2 c => simp
  | case3 c d rest pair ih => cases pair.2
  | case4 c d rest single ih => rw [ih, List.getLast?_cons_cons]

theorem sealed_of_not_mem (free : '\\' ∉ name) : Sealed pairs name := by
  fun_induction Sealed pairs name with
  | case1 => trivial
  | case2 c => exact fun same => free (by simp [same])
  | case3 c d rest pair ih => exact absurd (by simp [pair.1]) free
  | case4 c d rest single ih => exact ih (List.not_mem_of_not_mem_cons free)

/-- A name that can be entered has no backslash. -/
theorem sealed_of_isName {word : String} (isName : IsName word) : Sealed pairs word.toList := by
  apply sealed_of_not_mem
  have isWord := (isName_iff.mp isName).1
  cases chars : word.toList with
  | nil => exact List.not_mem_nil
  | cons c later =>
    rw [chars] at isWord
    obtain ⟨-, -, -, starts, continued⟩ := Lexer.isWord_cons_iff.mp isWord
    intro backslash
    rcases List.mem_cons.mp backslash with rfl | inside
    · exact absurd starts (by decide +kernel)
    · exact absurd (continued _ inside) (by decide +kernel)

/-! ### Names in a drawing -/

variable {A : Arena} {style : DotStyle} {h : Handle} {entries : List Cell} {e : Cell}

/-- The text of a name's declaration up to the opening quote of its label. -/
def DotStyle.opening (style : DotStyle) (h : Handle) : String :=
  s!"{h.index} [shape={style.leafShape}, label=\""

theorem text_declaration (bare : style.showHandles = false) {n : Node} {name : String} (isName : n.shape = .id name) :
    (style.declaration (some style.leafShape) (h, n)).text ++ "\n" =
      style.opening h ++ String.ofList (quoteLabel name.toList) ++ "\"" ++ "];\n" := by
  have label : style.label h n = String.ofList (quoteLabel name.toList) := by
    unfold DotStyle.label Node.caption
    rw [bare, isName]
    rfl
  unfold DotStyle.declaration DotStyle.opening Statement.text
  dsimp only
  rw [label]
  simp only [String.append_assoc]
  rfl

theorem mem_draw_of_leaf (drawn : e ∈ entries) (leaf : e.2.shape.isLeaf = true) :
    style.declaration (some style.leafShape) e ∈ style.draw entries := by
  obtain ⟨tops, inner, leaves, perm, top, plain, -, parts⟩ := draw_parts style entries
  have rank : e.2.shape.variant.rank = some .sink := by rw [rank_variant, if_pos leaf]
  have inside : e ∈ leaves := by
    rcases List.mem_append.mp (perm.mem_iff.mpr drawn) with member | member
    · cases rank.symm.trans (top e member)
    · rcases List.mem_append.mp member with member | member
      · cases rank.symm.trans (plain e member)
      · exact member
  have grouped : style.declaration (some style.leafShape) e ∈ style.group .sink style.leafShape leaves := by
    unfold DotStyle.group
    rw [if_neg (by simpa using List.ne_nil_of_mem inside)]
    exact List.mem_cons_of_mem _ (List.mem_append_left _ (List.mem_map_of_mem inside))
  rw [parts]
  simp only [List.mem_append]
  exact Or.inr (Or.inr (Or.inr (Or.inl grouped)))

/-- A drawing that shows a name has its label, with the closing quote and the rest of the line behind it. -/
theorem label_in_dot {starts nodes : List Handle} {text name : String} (bare : style.showHandles = false)
    (named : A.shape h = .ok (.id name)) (reached : A.reachable starts = .ok nodes) (shown : h ∈ nodes)
    (drawn : A.dot style starts = .ok text) : ∃ before after,
      text = before ++ style.opening h ++ String.ofList (quoteLabel name.toList) ++ "\"" ++ ("];\n" ++ after) := by
  cases read : nodes.mapM fun h => (do return (h, ← A.node h) : Checked Cell) with
  | error fault =>
    rw [dot, drawing, reached] at drawn
    simp only [bind, Except.bind] at read drawn
    rw [read] at drawn
    cases drawn
  | ok entries =>
    have statements : A.drawing style starts = .ok (style.draw entries) := by
      rw [drawing, reached]
      simp only [bind, Except.bind] at read ⊢
      rw [read]
      rfl
    obtain ⟨e, member, entry⟩ := Checked.exists_mem_of_mapM read shown
    obtain ⟨n, held, isName⟩ := cell?_of_shape named
    rw [node_of_cell? held] at entry
    obtain rfl : (h, n) = e := Except.ok.inj entry
    have leaf : n.shape.isLeaf = true := by rw [isName]; rfl
    have declared : style.declaration (some style.leafShape) (h, n) ∈ style.draw entries := mem_draw_of_leaf member leaf
    obtain ⟨first, last, split⟩ := List.append_of_mem declared
    refine ⟨String.join (first.map fun s => s.text ++ "\n"), String.join (last.map fun s => s.text ++ "\n"), ?_⟩
    rw [dot_of_drawing statements, split] at drawn
    rw [← Except.ok.inj drawn, List.map_append, List.map_cons, String.join_append, String.join_cons,
      text_declaration bare isName]
    simp only [String.append_assoc]

theorem dot_name {name : String} (named : A.shape h = .ok (.id name)) (style : DotStyle) :
    A.reachable [h] = .ok [h] ∧ ∃ text, A.dot style [h] = .ok text := by
  have alone : A.reachable [h] = .ok [h] := by
    rw [reachable, List.mapM_cons, descendants, collect, fold, bound, foldTo, named]
    rfl
  obtain ⟨n, held, -⟩ := cell?_of_shape named
  refine ⟨alone, ?_⟩
  rw [dot, drawing, alone]
  simp only [bind, Except.bind]
  rw [List.mapM_cons, node_of_cell? held]
  exact ⟨_, rfl⟩

/-- A name can always be drawn. Wherever it is, reading its label ends at the closing quote exactly if the name is
sealed, and then gives back the name. Names that can be entered are sealed for every reader, and for one that takes
backslashes singly all names are that do not end in one. -/
theorem label_read_iff {name : String} (named : A.shape h = .ok (.id name)) (bare : style.showHandles = false) :
    A.reachable [h] = .ok [h] ∧ (∃ text, A.dot style [h] = .ok text) ∧
    (∀ starts nodes text, A.reachable starts = .ok nodes → h ∈ nodes → A.dot style starts = .ok text →
      ∃ before after, text = before ++ style.opening h ++ String.ofList (quoteLabel name.toList) ++ "\"" ++ after ∧
        "];\n".toList <+: after.toList ∧
        ∀ pairs, (Sealed pairs name.toList →
            readQuoted pairs (quoteLabel name.toList ++ '\x22' :: after.toList) = some (name.toList, after.toList)) ∧
          (¬ Sealed pairs name.toList →
            ∀ s, readQuoted pairs (quoteLabel name.toList ++ '\x22' :: after.toList) ≠ some (s, after.toList))) ∧
    (IsName name → ∀ pairs, Sealed pairs name.toList) ∧
    (Sealed false name.toList ↔ name.toList.getLast? ≠ some '\\') := by
  obtain ⟨alone, drawn⟩ := dot_name named style
  refine ⟨alone, drawn, fun starts nodes text reached shown drawn => ?_, fun isName pairs => sealed_of_isName isName,
    sealed_single_iff⟩
  obtain ⟨before, after, written⟩ := label_in_dot bare named reached shown drawn
  refine ⟨before, "];\n" ++ after, written, ?_, fun pairs =>
    ⟨fun whole => readQuoted_quoteLabel whole _, fun broken s => readQuoted_of_not_sealed broken _ s⟩⟩
  rw [String.toList_append]
  exact List.prefix_append _ _

/-- A backslash in front of a quote is the last of the name that a reader of pairs finds in the label. -/
theorem label_read_iff_escaped : ∃ A before after, ({} : Arena).addId "a\\\"b" = .ok (⟨1⟩, A) ∧
    A.dot {} [⟨1⟩] = .ok (before ++ ({} : DotStyle).opening ⟨1⟩ ++ "a\\\\\"b" ++ "\"" ++ after) ∧
    readQuoted false ("a\\\\\"b".toList ++ '\x22' :: after.toList) = some ("a\\\"b".toList, after.toList) ∧
    ∀ s, readQuoted true ("a\\\\\"b".toList ++ '\x22' :: after.toList) ≠ some (s, after.toList) := by
  obtain ⟨A, added, named⟩ : ∃ A, ({} : Arena).addId "a\\\"b" = .ok (⟨1⟩, A) ∧
      A.shape ⟨1⟩ = .ok (.id "a\\\"b") := ⟨_, rfl, rfl⟩
  have label : quoteLabel "a\\\"b".toList = "a\\\\\"b".toList := by simp [quoteLabel]
  have bare : ({} : DotStyle).showHandles = false := rfl
  obtain ⟨alone, ⟨text, drawn⟩, labelled, -⟩ := label_read_iff named bare
  obtain ⟨before, after, rfl, -, reads⟩ := labelled [⟨1⟩] [⟨1⟩] text alone List.mem_cons_self drawn
  rw [label] at reads drawn
  refine ⟨A, before, after, added, ?_, (reads false).1 ?_, (reads true).2 ?_⟩
  · rw [drawn, String.ofList_toList]
  · rw [sealed_single_iff]
    simp
  · simp [Sealed]

/-- The label of a name that is a backslash is not closed: the rest of the drawing is read as part of it. -/
theorem label_unclosed :
    (do let (h, A) ← ({} : Arena).addId "\\"; A.dot {} [h]) =
      .ok ("digraph \x7b\nnode [shape=ellipse];\n\x7b rank=sink\n" ++ ({} : DotStyle).opening ⟨1⟩ ++
        "\\" ++ "\"" ++ "];\n\x7d\n\x7d\n") ∧
    ∀ pairs, readQuoted pairs ("\\".toList ++ '\x22' :: "];\n\x7d\n\x7d\n".toList) = none := by
  refine ⟨rfl, fun pairs => ?_⟩
  simp [readQuoted, say]

end Propositional.Arena
