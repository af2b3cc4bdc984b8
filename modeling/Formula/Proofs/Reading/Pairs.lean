/-
Which pairs of brackets are open.

A pair of brackets stays in its tree after it has been closed, and an operator that comes in later
may take it along.  So nothing at the pair itself says whether it is open.  The open pairs are the
ones on the way from the cursor to the root (`openParens`), and the moves of a tree under
construction change them as brackets do: a leaf and an operator leave them alone, since an operator
takes the place of operators only (`Sound.path_insert`), an opening bracket puts one more in front,
and a closing bracket takes the one in front away (`Rooted.openParens_close`).

What a closing bracket closes is looked up on the same way, by another search that also stops at
the bounds of an argument.  Only the root can be such a bound (`Rooted`), so both searches agree.
-/
import Formula.Proofs.Reading.Building
import Formula.Proofs.Tree.Built

namespace Formula

theorem Token.isParen_of_operator? {token : Token} (h : token.operator?.isSome) :
    token.isParen = false := by
  cases token with
  | operator => rfl
  | _ => cases h

theorem Token.eq_of_isParen {token : Token} (h : token.isParen = true) : token = .group .paren := by
  unfold isParen at h
  split at h
  · rfl
  · cases h

namespace Builder

variable {b c : Builder} {op : Operator} {place : Placement} {id parent : NodeId}

/-- The pairs of brackets that are still open, the innermost one first. -/
def openParens (b : Builder) : List NodeId := b.path.filter fun id => (b.tree.token id).isParen

theorem openParen?_eq (b : Builder) : b.openParen? = b.openParens.head? := by
  rw [openParen?, openParens, List.head?_filter]

/-- The open pairs are told by the way and by what is on it. -/
theorem openParens_congr (hpath : c.path = b.path)
    (htoken : ∀ id ∈ b.path, c.tree.token id = b.tree.token id) : c.openParens = b.openParens := by
  unfold openParens
  rw [hpath]
  apply List.filter_congr
  intro id hid
  rw [htoken id hid]

/-- How a tree grows while no bracket is read. -/
inductive Fills (b : Builder) : Builder → Prop
  | refl : Fills b b
  | attach {c : Builder} (h : Fills b c) (token : Token) : Fills b (c.attach token)
  | insert {c : Builder} {op : Operator} {place : Placement} (h : Fills b c)
      (hplace : c.placement? op = some place) : Fills b (c.insert op place)

theorem Fills.grows (h : b.Fills c) : b.Grows c := by
  induction h with
  | refl => exact .refl
  | attach _ token ih => exact ih.attach token
  | insert _ hplace ih => exact ih.insert hplace

theorem token_of_openParen? (hopen : b.openParen? = some id) : b.tree.token id = .group .paren :=
  Token.eq_of_isParen (List.find?_eq_some_iff_append.mp hopen).1

/-! ### What the moves do to the way -/

namespace Sound

theorem token_attach (h : b.Sound) (token : Token) (id : NodeId) :
    (b.attach token).tree.token id = if id = b.tree.size then token else b.tree.token id :=
  Tree.token_add token h.cursor_lt id

theorem token_attach_of_lt (h : b.Sound) (token : Token) (hid : id < b.tree.size) :
    (b.attach token).tree.token id = b.tree.token id := by
  rw [h.token_attach, if_neg (Nat.ne_of_lt hid)]

theorem path_attach (h : b.Sound) (token : Token) : (b.attach token).path = b.path :=
  h.linked.way_add h.cursor_lt token token.levels h.cursor_lt

theorem path_openParen (h : b.Sound) : b.openParen.path = b.tree.size :: b.path := by
  have hlink : b.openParen.tree.parent? b.tree.size = some b.cursor :=
    (Arena.parent?_add h.cursor_lt _ _ _).trans (if_pos rfl)
  exact (h.openParen.linked.way_eq_cons hlink).trans
    (congrArg _ (h.path_attach (.group .paren)))

theorem token_insert (h : b.Sound) (hplace : b.placement? op = some place) (id : NodeId) :
    (b.insert op place).tree.token id =
      if id = b.tree.size then .operator op else b.tree.token id := by
  obtain ⟨hlt, hne⟩ := h.placement hplace
  obtain ⟨parent, hparent⟩ := h.linked.exists_parent _ hlt hne
  exact Tree.token_wrap (.operator op) h.linked hparent id

theorem token_insert_of_lt (h : b.Sound) (hplace : b.placement? op = some place)
    (hid : id < b.tree.size) : (b.insert op place).tree.token id = b.tree.token id := by
  rw [h.token_insert hplace, if_neg (Nat.ne_of_lt hid)]

/-- Going up through operators passes operators only. -/
theorem way_resurface (h : b.Sound) {current : Operator}
    (hcurrent : b.current.operator? = some current)
    (hparent : b.tree.parent? (b.resurface b.cursor) = some parent) :
    ∃ passed, b.path = passed ++ b.tree.way parent ∧
      ∀ id ∈ passed, (b.tree.token id).operator?.isSome := by
  let binds := fun above => (b.tree.token above).operator?.any fun op => op.precedence = .term
  let climbed := (b.tree.ancestors b.cursor).takeWhile binds
  let behind := (b.tree.ancestors b.cursor).dropWhile binds
  have hpath : b.path = (b.cursor :: climbed) ++ behind := by
    rw [List.cons_append, List.takeWhile_append_dropWhile]
    rfl
  -- the last node that is passed is the one that the operator takes
  obtain ⟨below, hbelow⟩ : ∃ below, b.cursor :: climbed = below ++ [b.resurface b.cursor] :=
    List.getLast?_eq_some_iff.mp List.getLast?_cons
  refine ⟨b.cursor :: climbed, ?_, ?_⟩
  · have hsuffix : b.resurface b.cursor :: behind <:+ b.tree.way b.cursor := by
      refine ⟨below, ?_⟩
      rw [List.append_cons, ← hbelow]
      exact hpath.symm
    rw [hpath, h.linked.eq_ancestors_of_suffix h.cursor_lt hsuffix, h.linked.ancestors_eq hparent]
  · intro id hid
    rcases List.mem_cons.mp hid with rfl | hid
    · exact Option.isSome_of_eq_some hcurrent
    · have htake := List.all_eq_true.mp List.all_takeWhile id hid
      exact Option.isSome_of_any htake

/-- Above the node that an operator takes are the nodes above the cursor, without some of the
operators there. -/
theorem way_left (h : b.Sound) (hplace : b.placement? op = some place)
    (hparent : b.tree.parent? place.left = some parent) :
    ∃ passed, b.path = passed ++ b.tree.way parent ∧
      ∀ id ∈ passed, (b.tree.token id).operator?.isSome := by
  have hchild : ∀ left, b.tree.lastChild? b.cursor = some left →
      b.tree.parent? left = some parent → b.path = [] ++ b.tree.way parent := by
    intro left hlast hup
    have hcursor := (h.linked.mem_children _ _).mp (List.mem_of_getLast? hlast)
    rw [← Option.some.inj (hcursor.symm.trans hup)]
    rfl
  have hcursor : ∀ current, b.current.operator? = some current →
      b.tree.parent? b.cursor = some parent → b.path = [b.cursor] ++ b.tree.way parent ∧
        ∀ id ∈ [b.cursor], (b.tree.token id).operator?.isSome := by
    intro current hcurrent hup
    refine ⟨h.linked.way_eq_cons hup, ?_⟩
    rw [List.forall_mem_singleton]
    exact Option.isSome_of_eq_some hcurrent
  rw [placement?] at hplace
  cases hcurrent : b.current.operator? with
  | none =>
      rw [hcurrent] at hplace
      obtain ⟨left, hfilter, rfl⟩ := Option.map_eq_some_iff.mp hplace
      exact ⟨[], hchild left (Option.filter_eq_some_iff.mp hfilter).1 hparent, by simp⟩
  | some current =>
      rw [hcurrent] at hplace
      dsimp only at hplace
      split at hplace
      · next operand _ hlast =>
          obtain rfl := Option.some.inj hplace
          exact ⟨[], hchild operand hlast hparent, by simp⟩
      · obtain rfl := Option.some.inj hplace
        exact ⟨_, hcursor current hcurrent hparent⟩
      · obtain rfl := Option.some.inj hplace
        exact ⟨_, hcursor current hcurrent hparent⟩
      · obtain rfl := Option.some.inj hplace
        exact h.way_resurface hcurrent hparent

/-- **An operator takes the place of operators** at the lower end of the way. -/
theorem path_insert (h : b.Sound) (hplace : b.placement? op = some place) :
    ∃ passed rest, b.path = passed ++ rest ∧
      (∀ id ∈ passed, (b.tree.token id).operator?.isSome) ∧
      (b.insert op place).path = b.tree.size :: rest := by
  obtain ⟨hlt, hne⟩ := h.placement hplace
  obtain ⟨parent, hparent⟩ := h.linked.exists_parent _ hlt hne
  obtain ⟨passed, hpath, hpassed⟩ := h.way_left hplace hparent
  exact ⟨passed, b.tree.way parent, hpath, hpassed,
    h.linked.way_wrap_new hparent (.operator op)⟩

/-! ### What the moves do to the open pairs -/

theorem openParens_attach (h : b.Sound) (token : Token) :
    (b.attach token).openParens = b.openParens :=
  openParens_congr (h.path_attach token) fun _ hid => h.token_attach_of_lt token (h.path_lt hid)

/-- **An opening bracket** is one more open pair. -/
theorem openParens_openParen (h : b.Sound) :
    b.openParen.openParens = b.tree.size :: b.openParens := by
  have hnew : (b.openParen.tree.token b.tree.size).isParen = true := by
    have htoken := h.token_attach (.group .paren) b.tree.size
    rw [if_pos rfl] at htoken
    exact congrArg Token.isParen htoken
  rw [openParens, h.path_openParen, List.filter_cons, if_pos hnew]
  apply congrArg
  apply List.filter_congr
  intro id hid
  exact congrArg Token.isParen (h.token_attach_of_lt (.group .paren) (h.path_lt hid))

/-- **An operator** leaves the open pairs as they are. -/
theorem openParens_insert (h : b.Sound) (hplace : b.placement? op = some place) :
    (b.insert op place).openParens = b.openParens := by
  obtain ⟨passed, rest, hpath, hpassed, hinserted⟩ := h.path_insert hplace
  have hskip : passed.filter (fun id => (b.tree.token id).isParen) = [] := by
    rw [List.filter_eq_nil_iff]
    intro id hid
    rw [Token.isParen_of_operator? (hpassed id hid)]
    exact Bool.false_ne_true
  have hnew : ¬((b.insert op place).tree.token b.tree.size).isParen = true := by
    rw [h.token_insert hplace, if_pos rfl]
    exact Bool.false_ne_true
  rw [openParens, openParens, hinserted, hpath, List.filter_cons, if_neg hnew, List.filter_append,
    hskip, List.nil_append]
  apply List.filter_congr
  intro id hid
  rw [h.token_insert_of_lt hplace (h.path_lt (hpath ▸ List.mem_append_right passed hid))]

/-- While no bracket is read, the same pairs stay open. -/
theorem openParens_fills (h : b.Sound) (hfills : b.Fills c) : c.openParens = b.openParens := by
  induction hfills with
  | refl => rfl
  | attach hfills token ih => rw [(h.grows hfills.grows).openParens_attach token, ih]
  | insert hfills hplace ih => rw [(h.grows hfills.grows).openParens_insert hplace, ih]

end Sound

/-! ### The bounds of an argument -/

/-- The root keeps its token. -/
theorem Sound.token_root_grows (h : b.Sound) (hgrows : b.Grows c) :
    c.tree.token Arena.root = b.tree.token Arena.root := by
  induction hgrows with
  | refl => rfl
  | attach hgrows token ih =>
      have hc := h.grows hgrows
      exact (hc.token_attach_of_lt token hc.linked.size_pos).trans ih
  | openParen hgrows ih =>
      have hc := h.grows hgrows
      exact (hc.token_attach_of_lt (.group .paren) hc.linked.size_pos).trans ih
  | close _ _ ih => exact ih
  | insert hgrows hplace ih =>
      have hc := h.grows hgrows
      exact (hc.token_insert_of_lt hplace hc.linked.size_pos).trans ih

/-- The root is that of a formula or that of an argument, and nothing else around the cursor bounds
an argument. -/
structure Rooted (b : Builder) : Prop extends b.Sound where
  token_root : b.tree.token Arena.root = .empty ∨ b.tree.token Arena.root = .group .scope
  eq_root : ∀ id ∈ b.path, b.tree.token id = .group .scope → id = Arena.root

/-- What a closing bracket closes is below the root or the root itself, so the cursor goes up. -/
theorem Sound.mem_path_closing (h : b.Sound) {closing : Closing}
    (hclosing : b.closing? = some closing) : closing.node ∈ b.path := by
  obtain ⟨id, hid, hat⟩ := List.exists_of_findSome?_eq_some hclosing
  rw [closingAt] at hat
  split at hat
  · obtain ⟨parent, hparent, rfl⟩ := Option.map_eq_some_iff.mp hat
    exact List.mem_cons_of_mem _ (h.linked.parent_mem_ancestors h.cursor_lt hid hparent)
  · obtain rfl := Option.some.inj hat
    exact hid
  · cases hat

namespace Rooted

theorem ofRoot {token : Token} (htoken : token = .empty ∨ token = .group .scope) :
    (Builder.ofRoot token).Rooted := by
  have hoperator : token.operator? = none := by rcases htoken with rfl | rfl <;> rfl
  have hsound := Sound.ofRoot hoperator
  have hpath : (Builder.ofRoot token).path = [Arena.root] := hsound.linked.way_root
  refine ⟨hsound, htoken, ?_⟩
  intro id hid _
  rw [hpath] at hid
  exact List.mem_singleton.mp hid

theorem attach (h : b.Rooted) (token : Token) : (b.attach token).Rooted := by
  have hroot := h.token_root_grows (.attach .refl token)
  refine ⟨h.toSound.attach token, hroot ▸ h.token_root, ?_⟩
  intro id hid hscope
  rw [h.path_attach] at hid
  rw [h.token_attach_of_lt token (h.path_lt hid)] at hscope
  exact h.eq_root id hid hscope

theorem openParen (h : b.Rooted) : b.openParen.Rooted := by
  have hattached := h.attach (.group .paren)
  refine ⟨h.toSound.openParen, hattached.token_root, ?_⟩
  intro id hid hscope
  rw [h.path_openParen] at hid
  rcases List.mem_cons.mp hid with rfl | hid
  · have htoken := h.token_attach (.group .paren) b.tree.size
    rw [if_pos rfl] at htoken
    cases htoken.symm.trans hscope
  · rw [← h.path_attach (.group .paren)] at hid
    exact hattached.eq_root id hid hscope

/-- The cursor may go up. -/
theorem climb (h : b.Rooted) (hid : id ∈ b.path) : ({ b with cursor := id } : Builder).Rooted where
  linked := h.linked
  cursor_lt := h.path_lt hid
  operator?_root := h.operator?_root
  token_root := h.token_root
  eq_root _ habove := h.eq_root _ (h.linked.mem_way_trans h.cursor_lt hid habove)

theorem insert (h : b.Rooted) (hplace : b.placement? op = some place) :
    (b.insert op place).Rooted := by
  obtain ⟨passed, rest, hpath, -, hinserted⟩ := h.path_insert hplace
  have hroot := h.token_root_grows (.insert .refl hplace)
  refine ⟨h.toSound.insert hplace, hroot ▸ h.token_root, ?_⟩
  intro id hid hscope
  rw [hinserted] at hid
  rw [h.token_insert hplace] at hscope
  by_cases hnew : id = b.tree.size
  · rw [if_pos hnew] at hscope
    cases hscope
  · rw [if_neg hnew] at hscope
    have hold := (List.mem_cons.mp hid).resolve_left hnew
    exact h.eq_root id (hpath ▸ List.mem_append_right passed hold) hscope

theorem grows (h : b.Rooted) (hgrows : b.Grows c) : c.Rooted := by
  induction hgrows with
  | refl => exact h
  | attach _ token ih => exact ih.attach token
  | openParen _ ih => exact ih.openParen
  | close _ hclosing ih => exact ih.climb (ih.mem_path_closing hclosing)
  | insert _ hplace ih => exact ih.insert hplace

/-! ### What a closing bracket closes -/

theorem isParen_root (h : b.Rooted) : (b.tree.token Arena.root).isParen = false := by
  rcases h.token_root with htoken | htoken <;> rw [htoken] <;> rfl

theorem closingAt_eq_none (h : b.Rooted) (hid : id ∈ b.path)
    (hparen : ¬(b.tree.token id).isParen = true) (hroot : id ≠ Arena.root) :
    b.closingAt id = none := by
  rw [closingAt]
  split
  · next htoken =>
      rw [htoken] at hparen
      exact absurd rfl hparen
  · next htoken => exact absurd (h.eq_root id hid htoken) hroot
  · rfl

/-- A closing bracket passes what is below the root and no pair of brackets. -/
theorem closing?_eq_findSome? (h : b.Rooted) {passed rest : List NodeId}
    (hpath : b.path = passed ++ rest)
    (hpassed : ∀ below ∈ passed, ¬(b.tree.token below).isParen = true)
    (hroot : Arena.root ∈ rest) : b.closing? = rest.findSome? b.closingAt := by
  have hnodup : b.path.Nodup := h.linked.nodup_way b.cursor
  rw [hpath] at hnodup
  have hskip : passed.findSome? b.closingAt = none := by
    rw [List.findSome?_eq_none_iff]
    intro below hbelow
    apply h.closingAt_eq_none (hpath ▸ List.mem_append_left rest hbelow) (hpassed below hbelow)
    rintro rfl
    exact (List.nodup_append.mp hnodup).2.2 _ hbelow _ hroot rfl
  rw [closing?, hpath, List.findSome?_append, hskip, Option.none_or]

/-- The innermost open pair cuts the way in two: no open pair is below it, and above it is what is
above its parent. -/
theorem path_eq_of_openParen? (h : b.Rooted) (hopen : b.openParen? = some id) :
    ∃ passed parent, b.tree.parent? id = some parent ∧
      b.path = passed ++ id :: b.tree.way parent ∧
      ∀ below ∈ passed, ¬(b.tree.token below).isParen = true := by
  obtain ⟨hparen, passed, behind, hpath, hpassed⟩ := List.find?_eq_some_iff_append.mp hopen
  have hne : id ≠ Arena.root := by
    rintro rfl
    rw [h.isParen_root] at hparen
    cases hparen
  have hmem : id ∈ b.path := hpath ▸ List.mem_append_right passed List.mem_cons_self
  obtain ⟨parent, hparent⟩ := h.linked.exists_parent id (h.path_lt hmem) hne
  have hbehind := h.linked.eq_ancestors_of_suffix h.cursor_lt ⟨passed, hpath.symm⟩
  refine ⟨passed, parent, hparent, ?_, ?_⟩
  · rw [hpath, hbehind, h.linked.ancestors_eq hparent]
  · intro below hbelow
    simpa using hpassed below hbelow

theorem closing?_of_openParen? (h : b.Rooted) (hopen : b.openParen? = some id) :
    b.closing? = (b.tree.parent? id).map .group := by
  obtain ⟨passed, parent, hparent, hpath, hpassed⟩ := h.path_eq_of_openParen? hopen
  have hroot : Arena.root ∈ b.tree.way parent :=
    List.mem_of_getLast? (h.linked.getLast?_way (h.linked.parent_lt id parent hparent))
  have hat : b.closingAt id = some (.group parent) := by
    rw [closingAt, token_of_openParen? hopen, hparent]
    rfl
  rw [h.closing?_eq_findSome? hpath hpassed (List.mem_cons_of_mem _ hroot), List.findSome?_cons,
    hat, hparent]
  rfl

/-- Without an open pair nothing but the root can be closed. -/
theorem closing?_of_none (h : b.Rooted) (hopen : b.openParen? = none) :
    b.closing? = b.closingAt Arena.root := by
  have hnone := List.find?_eq_none.mp hopen
  obtain ⟨passed, hway⟩ := List.getLast?_eq_some_iff.mp (h.linked.getLast?_way h.cursor_lt)
  have hpath : b.path = passed ++ [Arena.root] := hway
  have hpassed : ∀ below ∈ passed, ¬(b.tree.token below).isParen = true := by
    intro below hbelow
    exact hnone below (hpath ▸ List.mem_append_left _ hbelow)
  rw [h.closing?_eq_findSome? hpath hpassed List.mem_cons_self, List.findSome?_singleton]

/-- **A closing bracket closes the innermost open pair**, if there is one. -/
theorem closing?_eq_group_iff (h : b.Rooted) : b.closing? = some (.group parent) ↔
    ∃ id, b.openParen? = some id ∧ b.tree.parent? id = some parent := by
  cases hopen : b.openParen? with
  | none =>
      rw [h.closing?_of_none hopen, closingAt]
      rcases h.token_root with hroot | hroot <;> simp [hroot]
  | some id =>
      rw [h.closing?_of_openParen? hopen]
      simp

/-- **Without an open pair** a closing bracket in an argument is that of the call. -/
theorem closing?_eq_call_iff (h : b.Rooted) {root : NodeId} : b.closing? = some (.call root) ↔
    b.openParen? = none ∧ b.tree.token Arena.root = .group .scope ∧ root = Arena.root := by
  cases hopen : b.openParen? with
  | none =>
      rw [h.closing?_of_none hopen, closingAt]
      rcases h.token_root with hroot | hroot <;> simp [hroot, eq_comm]
  | some id =>
      rw [h.closing?_of_openParen? hopen]
      simp

/-- **Without an open pair** a closing bracket in a formula closes nothing. -/
theorem closing?_eq_none_iff (h : b.Rooted) : b.closing? = none ↔
    b.openParen? = none ∧ b.tree.token Arena.root = .empty := by
  cases hopen : b.openParen? with
  | none =>
      rw [h.closing?_of_none hopen, closingAt]
      rcases h.token_root with hroot | hroot <;> simp [hroot]
  | some id =>
      obtain ⟨-, parent, hparent, -⟩ := h.path_eq_of_openParen? hopen
      rw [h.closing?_of_openParen? hopen, hparent]
      simp

/-- **Closing the innermost open pair** leaves the open pairs around it. -/
theorem openParens_close (h : b.Rooted) (hopen : b.openParen? = some id)
    (hparent : b.tree.parent? id = some parent) :
    b.openParens = id :: openParens { b with cursor := parent } := by
  obtain ⟨passed, above, habove, hpath, hpassed⟩ := h.path_eq_of_openParen? hopen
  obtain rfl := Option.some.inj (habove.symm.trans hparent)
  rw [openParens, hpath, List.filter_append, List.filter_eq_nil_iff.mpr hpassed, List.nil_append,
    List.filter_cons, token_of_openParen? hopen]
  rfl

/-- No pair is open around the root. -/
theorem openParens_root (h : b.Rooted) : openParens { b with cursor := Arena.root } = [] := by
  have hpath : path { b with cursor := Arena.root } = [Arena.root] := h.linked.way_root
  rw [openParens, hpath, List.filter_singleton]
  exact congrArg (cond · [Arena.root] []) h.isParen_root

end Rooted

end Builder

end Formula
