/-
Calls are compositional.

The text of a call is a name and, in brackets, the texts of its arguments with commas between
them.  Commas and brackets end words, so the words of the call are those of the arguments, and
what the call is read as can be put together from what its arguments are read as on their own:
`parse_callText`.  An argument of a call is the tree of its text, only that the root is marked
as the scope of the argument.
-/
import Formula.Proofs.Grammar.Names
import Formula.Proofs.Language
import Formula.Proofs.Reading.Prefixes

namespace Formula

/-- The text of a call. -/
def callText (name : String) (arguments : List String) : String :=
  name ++ "(" ++ ",".intercalate arguments ++ ")"

namespace Tree

/-- The tree with another token at its root. -/
def retoken (token : Token) (tree : Tree) : Tree :=
  ⟨tree.nodes.modify Arena.root fun node => { node with value := token }⟩

/-- The tree of a call that hangs below an empty root. -/
def ofCall (name : String) (arguments : List Tree) : Tree :=
  let call := Token.call name arguments
  ⟨#[⟨.empty, none, [1], call.levels + 1⟩, ⟨call, some Arena.root, [], call.levels⟩]⟩

/-- The token of the root is all that two drafts differ in. -/
theorem retoken_arena (root token : Token) (hung : List (Piece Token)) :
    retoken token (Draft.mk root [] hung).arena = (Draft.mk token [] hung).arena := by
  simp [retoken, Draft.arena, Draft.nodes, Draft.cursor, Spine.nodes, Spine.last, Spine.value,
    Arena.root]

end Tree

/-! ### The words of a call -/

/-- A comma goes on with the words behind it. -/
theorem words?_comma (text : List Char) : words? (',' :: text) = (words? text).map (.comma :: ·) :=
  words?_word rfl

theorem words?_closing : words? [')'] = some [.closing] := words?_closings 1

/-- The words of a call are those of its arguments between its name and its last bracket. -/
theorem words?_callText {name : String} (hname : IsIdentifier name) {sources : List String}
    {ws : List Word} (hwords : words? (",".intercalate sources).toList = some ws) :
    words? (callText name sources).toList = some (.function name :: (ws ++ [.closing])) := by
  have hsource : (callText name sources).toList =
      name.toList ++ '(' :: ((",".intercalate sources).toList ++ [')']) := by
    simp [callText]
  have hlex := lex_function hname ((",".intercalate sources).toList ++ [')'])
  have hbehind : words? ((",".intercalate sources).toList ++ [')']) = some (ws ++ [.closing]) := by
    rw [words?_append hwords (by simp [endsWord]), words?_closing]
    rfl
  rw [hsource]
  rw [← List.singleton_append, ← List.append_assoc] at hlex ⊢
  rw [← dropWhile_word hlex] at hlex
  rw [words?_word hlex, hbehind]
  rfl

/-! ### The arguments -/

section

variable {limits : Limits}

/-- On its own, the text is read as the expression. -/
structure ReadsAs (limits : Limits) (source : String) (e : Expr) : Prop where
  words_eq : words? source.toList = some e.words
  layered : e.Layered
  calls_le : e.callDepth ≤ limits.callDepth
  height_le : e.height + 1 ≤ limits.treeDepth
  tree_eq : (parse limits source).tree = (formulaDraft (some e)).arena

/-- A text that is read without a failure and is not empty is read as an expression. -/
theorem exists_readsAs {source : String} (hok : (parse limits source).isOk = true)
    (hexpression : (parse limits source).expression.isSome = true) :
    ∃ e, ReadsAs limits source e := by
  obtain ⟨f, haccepted, htree⟩ := isOk_iff_accepted.mp hok
  obtain ⟨hwords, hlayered, hcalls, hheight⟩ := Stage.read_eq_accepted_iff.mp haccepted
  cases f with
  | none =>
      rw [Parsed.expression, htree, (Draft.first?_arena_eq_none _).mpr ⟨rfl, rfl⟩] at hexpression
      cases hexpression
  | some e => exact ⟨e, hwords, hlayered e rfl, hcalls, hheight, htree⟩

/-- The argument of a call that a text becomes. -/
def argumentOf (limits : Limits) (source : String) : Tree :=
  (parse limits source).tree.retoken (.group .scope)

/-- The texts, with commas between them, are read as the arguments of a call. -/
structure ReadAll (limits : Limits) (sources : List String) (es : List Expr) : Prop where
  words_eq : words? (",".intercalate sources).toList = some (Expr.listWords es)
  layered : Expr.AllLayered es
  calls_le : Expr.listCallDepth es ≤ limits.callDepth
  height_le : Expr.listHeight es ≤ limits.treeDepth + 1
  trees_eq : Expr.trees es = sources.map (argumentOf limits)

theorem ReadsAs.argumentOf_eq {source : String} {e : Expr} (h : ReadsAs limits source e) :
    argumentOf limits source = e.argumentTree := by
  rw [argumentOf, h.tree_eq]
  exact Tree.retoken_arena _ _ _

/-- One argument. -/
theorem ReadsAs.readAll {source : String} {e : Expr} (h : ReadsAs limits source e) :
    ReadAll limits [source] [e] := by
  have hcalls := h.calls_le
  have hheight := h.height_le
  refine ⟨?_, ⟨h.layered, trivial⟩, ?_, ?_, ?_⟩
  · rw [String.intercalate_singleton, h.words_eq, Expr.listWords, Expr.moreWords,
      List.append_nil]
  · simpa [Expr.listCallDepth] using hcalls
  · simp only [Expr.listHeight]
    omega
  · rw [List.map_singleton, h.argumentOf_eq]
    rfl

/-- One more argument in front of others. -/
theorem ReadsAs.cons {source next : String} {sources : List String} {e : Expr} {es : List Expr}
    (h : ReadsAs limits source e) (hall : ReadAll limits (next :: sources) es) :
    ReadAll limits (source :: next :: sources) (e :: es) := by
  have hcalls := h.calls_le
  have hheight := h.height_le
  have hcalls' := hall.calls_le
  have hheight' := hall.height_le
  refine ⟨?_, ⟨h.layered, hall.layered⟩, ?_, ?_, ?_⟩
  · have hsource : (",".intercalate (source :: next :: sources)).toList =
        source.toList ++ ',' :: (",".intercalate (next :: sources)).toList := by
      simp [String.intercalate_cons_cons]
    cases es with
    | nil => cases hall.trees_eq
    | cons e' es =>
        rw [hsource, words?_append h.words_eq (by simp [endsWord]), words?_comma, hall.words_eq]
        simp only [Option.map_some, Expr.listWords, Expr.moreWords]
  · rw [Expr.listCallDepth]
    omega
  · rw [Expr.listHeight]
    omega
  · rw [List.map_cons, h.argumentOf_eq, ← hall.trees_eq]
    rfl

/-- Texts that are read as expressions can be the arguments of a call. -/
theorem exists_readAll {source : String} {sources : List String}
    (h : ∀ a ∈ source :: sources, ∃ e, ReadsAs limits a e) :
    ∃ es, ReadAll limits (source :: sources) es := by
  induction sources generalizing source with
  | nil =>
      obtain ⟨e, he⟩ := h source (by simp)
      exact ⟨[e], he.readAll⟩
  | cons next sources ih =>
      obtain ⟨e, he⟩ := h source (by simp)
      obtain ⟨es, hes⟩ := ih fun a ha => h a (List.mem_cons_of_mem _ ha)
      exact ⟨e :: es, he.cons hes⟩

end

/-! ### The call -/

/-- The limits under which a call can have the arguments that some limits allow. -/
def Limits.around (limits : Limits) : Limits :=
  { limits with callDepth := limits.callDepth + 1, treeDepth := limits.treeDepth + 2 }

/-- The tree of a formula that is one call. -/
theorem arena_call (name : String) (es : List Expr) :
    (formulaDraft (some (.call name es))).arena = Tree.ofCall name (Expr.trees es) := by
  have hpiece : (Expr.call name es).piece =
      .leaf (.call name (Expr.trees es)) (Token.call name (Expr.trees es)).levels := by
    rw [Expr.piece]
  rw [formulaDraft, Option.toList_some, List.map_singleton, hpiece]
  rfl

/-- **Calls are compositional.**  Where texts are read as expressions on their own, the text of
a call with these arguments is read as one call, under limits that leave room for it.  Its
arguments are the trees of the texts, the empty root of each turned into a scope. -/
theorem parse_callText {limits : Limits} {name : String} {sources : List String}
    (hname : IsIdentifier name) (hsources : sources ≠ [])
    (hok : ∀ a ∈ sources,
      (parse limits a).isOk = true ∧ (parse limits a).expression.isSome = true) :
    parse limits.around (callText name sources) =
        ⟨Tree.ofCall name (sources.map (argumentOf limits)), none⟩ ∧
      ∀ a ∈ sources, (parse limits a).tree.value? Arena.root = some .empty := by
  have hreads : ∀ a ∈ sources, ∃ e, ReadsAs limits a e := fun a ha =>
    exists_readsAs (hok a ha).1 (hok a ha).2
  obtain ⟨source, sources, rfl⟩ := List.exists_cons_of_ne_nil hsources
  obtain ⟨es, hes⟩ := exists_readAll hreads
  have haccepted : (Stage.start (callText name (source :: sources)).toList).read limits.around =
      .accepted (some (.call name es)) := by
    have hcalls := hes.calls_le
    have hheight := hes.height_le
    refine Stage.read_eq_accepted_iff.mpr ⟨?_, ?_, ?_, ?_⟩
    · rw [words?_callText hname hes.words_eq, formulaWords, Expr.words]
    · intro e he
      obtain rfl := Option.mem_some_iff.mp he
      exact hes.layered
    · simpa [formulaCallDepth, Expr.callDepth, Limits.around] using hcalls
    · simpa [formulaHeight, Expr.height, Limits.around] using hheight
  refine ⟨?_, fun a ha => ?_⟩
  · rw [parse_of_accepted haccepted, arena_call, hes.trees_eq]
  · obtain ⟨e, he⟩ := hreads a ha
    rw [he.tree_eq]
    rfl

/-- A call of two arguments, one of them a call itself, under the least limits. -/
theorem parse_callText_two :
    IsIdentifier "f_1" ∧ ["a * 2", "g(b)"] ≠ [] ∧
      (∀ a ∈ ["a * 2", "g(b)"],
        (parse ⟨4, 1, 3⟩ a).isOk = true ∧ (parse ⟨4, 1, 3⟩ a).expression.isSome = true) ∧
      parse ⟨4, 2, 5⟩ "f_1(a * 2,g(b))" =
        ⟨Tree.ofCall "f_1" (["a * 2", "g(b)"].map (argumentOf ⟨4, 1, 3⟩)), none⟩ := by
  have hname : IsIdentifier "f_1" :=
    ⟨'f', ['_', '1'], rfl, by decide +kernel, List.all_eq_true.mp (by decide +kernel)⟩
  have hok : ∀ a ∈ ["a * 2", "g(b)"],
      (parse ⟨4, 1, 3⟩ a).isOk = true ∧ (parse ⟨4, 1, 3⟩ a).expression.isSome = true := by
    decide +kernel
  have hsources : ["a * 2", "g(b)"] ≠ [] := by simp
  exact ⟨hname, hsources, hok, (parse_callText hname hsources hok).1⟩

end Formula
