/-
How high trees get, and how many calls are inside each other.

The limits are looked at after every word.  So the tree at hand, the trees around it and the
complete arguments all keep to the height that is allowed, `Config.Low`, as long as reading
goes on.  Where reading stops, this is no longer so: the last word, the mark of the failure and
every call around it that is ended put levels on top of each other, and nothing looks at the
limit any more.  `height_stop_le` says how far this can go.

The number of calls inside each other keeps to its limit even so, since no call is entered
beyond it (`callDepth_stop_le`).
-/
import Formula.Proofs.Reading.Growth
import Formula.Proofs.Tree.Levels

namespace Formula

/-! ### Heights of open parts -/

/-- One level more below the innermost open part is at most one level more at the root. -/
theorem partsHeight_succ (h : Nat) (parts : List OpenPart) :
    partsHeight (h + 1) parts ≤ partsHeight h parts + 1 := by
  induction parts generalizing h with
  | nil => exact Nat.le_refl _
  | cons part parts ih =>
      cases part with
      | bracket => exact ih (h + 1)
      | operator op left =>
          refine Nat.le_trans (partsHeight_mono ?_ parts) (ih (max (left.height + 1) h + 1))
          omega

/-- What hangs below the innermost open part reaches the root, or it makes no difference. -/
theorem partsHeight_le (h : Nat) (parts : List OpenPart) :
    partsHeight h parts ≤ max (partsHeight 0 parts) (h + parts.length) := by
  induction parts generalizing h with
  | nil => exact Nat.le_max_right _ _
  | cons part parts ih =>
      have hzero : partsHeight 0 parts ≤ partsHeight 0 (part :: parts) := by
        cases part with
        | bracket => exact partsHeight_mono (Nat.zero_le _) parts
        | operator op left => exact partsHeight_mono (Nat.zero_le _) parts
      rw [List.length_cons]
      have hpush := ih (h + 1)
      cases part with
      | bracket =>
          rw [partsHeight]
          omega
      | operator op left =>
          rcases Nat.le_total (left.height + 1) h with hle | hle
          · rw [partsHeight, Nat.max_eq_right hle]
            omega
          · have heq : partsHeight h (.operator op left :: parts) =
                partsHeight 0 (.operator op left :: parts) := by
              rw [partsHeight, partsHeight, Nat.max_eq_left hle, Nat.max_eq_left (Nat.zero_le _)]
            rw [heq]
            exact Nat.le_max_left _ _

theorem length_le_partsHeight (h : Nat) (parts : List OpenPart) :
    h + parts.length ≤ partsHeight h parts := by
  induction parts generalizing h with
  | nil => exact Nat.le_refl _
  | cons part parts ih =>
      rw [List.length_cons]
      cases part with
      | bracket =>
          have hle := ih (h + 1)
          rw [partsHeight]
          omega
      | operator op left =>
          have hle := ih (max (left.height + 1) h + 1)
          rw [partsHeight]
          omega

/-- Closing operators changes no height. -/
theorem reduce_height (bound : Nat) (parts : List OpenPart) (e : Expr) :
    partsHeight ((reduce bound parts e).2.height + 1) (reduce bound parts e).1 =
      partsHeight (e.height + 1) parts := by
  induction parts generalizing e with
  | nil => rfl
  | cons part parts ih =>
      cases part with
      | bracket => rfl
      | operator op left =>
          rw [reduce]
          split
          · rw [ih, Expr.height, partsHeight]
          · rfl

/-- Closing a bracket changes no height. -/
theorem enclose_height_some {parts rest : List OpenPart} {e inner : Expr}
    (h : enclose parts e = (inner, some rest)) :
    partsHeight (inner.height + 2) rest = partsHeight (e.height + 1) parts := by
  induction parts generalizing e with
  | nil => cases h
  | cons part parts ih =>
      cases part with
      | bracket =>
          obtain ⟨rfl, hrest⟩ := Prod.mk.inj h
          obtain rfl := Option.some.inj hrest
          rfl
      | operator op left =>
          have hbinary := ih h
          rw [Expr.height] at hbinary
          exact hbinary

/-- The height of the tree of open parts with one more leaf below the cursor. -/
theorem height_hang (root token : Token) (parts : List OpenPart) (operand : Option Expr)
    (levels : Nat) : ((partsDraft root parts operand).hang (.leaf token levels)).height =
      partsHeight (max (formulaHeight operand) (levels + 1)) parts := by
  rw [Draft.height, Draft.hang, partsDraft]
  simp only
  rw [Forest.height_append, height_operand, height_partsFrames]
  simp [Forest.height, Piece.height]

/-! ### What keeps to the height -/

/-- The tree around a call and the arguments that are complete keep to the height `limit`. -/
structure OpenCall.Low (limit : Nat) (call : OpenCall) : Prop where
  parts : partsHeight 0 call.parts ≤ limit
  done : ∀ e ∈ call.done, e.height + 1 ≤ limit

/-- The calls around the tree at hand keep to the height `limit`. -/
def Config.Low (limit : Nat) (c : Config) : Prop := ∀ call ∈ c.outer, call.Low limit

namespace Config

variable {limit : Nat} {c d : Config}

/-- An argument that is complete is as high as the tree at hand. -/
theorem push_low {parts : List OpenPart} {call : OpenCall} {e argument : Expr}
    (hlow : call.Low limit) (hheight : partsHeight (e.height + 1) parts ≤ limit)
    (henclose : enclose parts e = (argument, none)) : (call.push argument).Low limit := by
  refine ⟨hlow.parts, ?_⟩
  intro other hother
  rcases List.mem_cons.mp hother with rfl | hother
  · rw [← enclose_height henclose]
    exact hheight
  · exact hlow.done other hother

/-- A word keeps the calls around low if the tree at hand is low, since this is the tree that
becomes an argument or the tree around a call. -/
theorem feed_low {w : Word} (hlow : c.Low limit) (hheight : c.height ≤ limit)
    (hfeed : c.feed w = .ok d) : d.Low limit := by
  cases fed_of_feed hfeed with
  | number | text | name | opening | operator | closeGroup => exact hlow
  | function =>
      intro call hcall
      rcases List.mem_cons.mp hcall with rfl | hcall
      · exact ⟨hheight, by simp⟩
      · exact hlow call hcall
  | closeEmpty | closeCall =>
      intro call hcall
      exact hlow call (List.mem_cons_of_mem _ hcall)
  | separate henclose =>
      intro call hcall
      rcases List.mem_cons.mp hcall with rfl | hcall
      · exact push_low (hlow _ (by simp)) hheight henclose
      · exact hlow call (List.mem_cons_of_mem _ hcall)

/-- The height that the tree at hand has once a leaf hangs below its cursor. -/
def markedHeight (c : Config) : Nat := partsHeight (max (formulaHeight c.operand) 1) c.parts

theorem markedHeight_le (c : Config) : c.markedHeight ≤ c.height + 1 := by
  rw [markedHeight, height]
  cases c.operand with
  | none => exact partsHeight_succ 0 c.parts
  | some e =>
      rw [formulaHeight, Nat.max_eq_left (by omega)]
      exact Nat.le_succ _

/-- A call that has been ended is as high as its arguments make it. -/
theorem markedHeight_close {call : OpenCall} (hlow : call.Low limit) (outer : List OpenCall) :
    (call.close outer).markedHeight ≤ 2 * limit + 2 := by
  have hlist : ∀ es : List Expr, (∀ e ∈ es, e.height + 1 ≤ limit) →
      Expr.listHeight es ≤ limit + 1 := by
    intro es hes
    induction es with
    | nil => rw [Expr.listHeight]; omega
    | cons e es ih =>
        have hfirst := hes e (by simp)
        have hrest := ih fun other hother => hes other (by simp [hother])
        rw [Expr.listHeight]
        omega
  have hdone : Expr.listHeight call.done.reverse ≤ limit + 1 := by
    refine hlist _ ?_
    intro e he
    exact hlow.done e (List.mem_reverse.mp he)
  have hlength := length_le_partsHeight 0 call.parts
  have hparts := hlow.parts
  have hmono := partsHeight_mono (show Expr.listHeight call.done.reverse + 1 ≤ limit + 2 by omega)
    call.parts
  have hsplit := partsHeight_le (limit + 2) call.parts
  rw [markedHeight, OpenCall.close]
  simp only [formulaHeight]
  rw [Expr.height, Nat.max_eq_left (by omega)]
  omega

/-- How high a word makes the tree at hand with a leaf below its cursor: two levels more than is
allowed, or twice as much if a call has been ended. -/
theorem feed_markedHeight {w : Word} (hlow : c.Low limit) (hheight : c.height ≤ limit)
    (hfeed : c.feed w = .ok d) : d.markedHeight ≤ limit + 2 ∨
      d.markedHeight ≤ 2 * limit + 2 ∧ d.outer.length < c.outer.length := by
  have hone : d.height ≤ c.height + 1 → d.markedHeight ≤ limit + 2 := by
    intro hle
    have hmark := d.markedHeight_le
    omega
  cases fed_of_feed hfeed with
  | @number parts _ | @text parts _ | @name parts _ | @opening parts _ =>
      exact .inl (hone (partsHeight_succ 0 parts))
  | function | separate => exact .inl (hone (Nat.zero_le _))
  | @operator parts _ e op =>
      refine .inl (hone ?_)
      have hreduce := reduce_height op.level parts e
      have hsucc := partsHeight_succ ((reduce op.level parts e).2.height + 1)
        (reduce op.level parts e).1
      rw [hreduce] at hsucc
      exact hsucc
  | closeGroup henclose =>
      refine .inl (hone (Nat.le_trans (Nat.le_of_eq ?_) (Nat.le_succ _)))
      exact enclose_height_some henclose
  | @closeEmpty call outer hdone =>
      exact .inr ⟨markedHeight_close (hlow call (by simp)) outer, Nat.lt_succ_self _⟩
  | @closeCall parts call outer e argument henclose =>
      have hpush := push_low (hlow call (by simp)) hheight henclose
      exact .inr ⟨markedHeight_close hpush outer, Nat.lt_succ_self _⟩

/-- The same where reading stops. -/
theorem Left.markedHeight_le {limits : Limits} (h : c.Left limits d)
    (hadmitted : c.Admitted limits) (hlow : c.Low limits.treeDepth) :
    d.Low limits.treeDepth ∧ (d.markedHeight ≤ limits.treeDepth + 2 ∧
        d.outer.length ≤ limits.callDepth ∨
      d.markedHeight ≤ 2 * limits.treeDepth + 2 ∧ d.outer.length < limits.callDepth) := by
  obtain ⟨hcalls, hheight⟩ := hadmitted
  cases h with
  | same =>
      have hmark := c.markedHeight_le
      exact ⟨hlow, .inl ⟨by omega, hcalls⟩⟩
  | openText content hoperand =>
      refine ⟨hlow, .inl ⟨?_, hcalls⟩⟩
      rw [height, hoperand] at hheight
      have hsucc : partsHeight 1 c.parts ≤ partsHeight 0 c.parts + 1 := partsHeight_succ 0 c.parts
      have hzero : partsHeight 0 c.parts ≤ limits.treeDepth := hheight
      show partsHeight 1 c.parts ≤ _
      omega
  | fed hfeed houter hplain =>
      refine ⟨feed_low hlow hheight hfeed, ?_⟩
      rcases feed_markedHeight hlow hheight hfeed with hmark | ⟨hmark, hfewer⟩
      · exact .inl ⟨hmark, houter⟩
      · exact .inr ⟨hmark, by omega⟩
  | @ended call outer heq =>
      subst heq
      refine ⟨fun other hother => hlow other (List.mem_cons_of_mem _ hother), .inr ⟨?_, ?_⟩⟩
      · exact markedHeight_close (hlow call (by simp)) outer
      · exact hcalls

end Config

theorem Stage.Leads.low {limits : Limits} {s t : Stage} {ws : List Word}
    (h : Leads limits s ws t) (hadmitted : s.config.Admitted limits)
    (hlow : s.config.Low limits.treeDepth) : t.config.Low limits.treeDepth := by
  have hboth : t.config.Admitted limits ∧ t.config.Low limits.treeDepth :=
    h.preserves (P := fun c => c.Admitted limits ∧ c.Low limits.treeDepth) ⟨hadmitted, hlow⟩
      fun hstep hs => ⟨hstep.admitted, Config.feed_low hs.2 hs.1.2 hstep.feeds⟩
  exact hboth.2

/-! ### Where reading stops -/

/-- Each call around a failure that is ended puts another tree on top, with two levels for the
call itself. -/
theorem height_failDraft_le {limit n : Nat} {d : Draft Token} {outer : List OpenCall}
    (hlow : ∀ call ∈ outer, call.Low limit) (hpos : 0 < n) (hd : d.height ≤ n * (limit + 2)) :
    (failDraft d outer).height ≤ (n + outer.length) * (limit + 2) := by
  induction outer generalizing d n with
  | nil => exact hd
  | cons call outer ih =>
      have hcall := hlow call (by simp)
      have hlevels : (Token.call call.name
          ((call.done.map Expr.argumentTree).reverse ++ [d.arena])).levels ≤
            max (limit + 1) (d.height + 1) := by
        rw [Token.levels_eq, greatest_le]
        intro level hlevel
        obtain ⟨t, ht, rfl⟩ := List.mem_map.mp hlevel
        rcases List.mem_append.mp ht with ht | ht
        · obtain ⟨e, he, rfl⟩ := List.mem_map.mp (List.mem_reverse.mp ht)
          have hle := hcall.done e he
          rw [e.height_argumentTree, e.height_piece]
          omega
        · rw [List.mem_singleton.mp ht, d.height_arena]
          exact Nat.le_max_right _ _
      have hlength := length_le_partsHeight 0 call.parts
      have hparts := hcall.parts
      have hround : limit + 2 ≤ n * (limit + 2) := Nat.le_mul_of_pos_left _ hpos
      rw [failDraft, List.length_cons, ← Nat.succ_add_eq_add_succ]
      refine ih (fun other hother => hlow other (by simp [hother])) (Nat.succ_pos n) ?_
      rw [callLeaf, height_hang, formulaHeight, Nat.zero_max, Nat.succ_mul]
      refine Nat.le_trans (partsHeight_le _ _) ?_
      omega

/-- How high the tree at hand is where reading stops, with the mark of the failure in it, and that
the trees around it keep to the limit. -/
theorem Stage.low_of_refused {limits : Limits} {text : List Char} {stop : Stop}
    (h : (Stage.start text).read limits = .refused stop) :
    stop.config.Low limits.treeDepth ∧
      (stop.config.markedHeight ≤ limits.treeDepth + 2 ∧
          stop.config.outer.length ≤ limits.callDepth ∨
        stop.config.markedHeight ≤ 2 * limits.treeDepth + 2 ∧
          stop.config.outer.length < limits.callDepth) := by
  obtain ⟨ws, t, hleads, hnext⟩ := Stage.leads_of_refused h
  have hstart := Stage.start_admitted limits text
  have hadmitted := hleads.admitted hstart
  have hleft := Stage.left_of_next hadmitted.1 hnext
  exact hleft.markedHeight_le hadmitted
    (hleads.low hstart (by simp [Config.Low, Stage.start, Config.start]))

/-- **How high a tree can get where reading fails.** -/
theorem height_stop_le {limits : Limits} {text : List Char} {stop : Stop}
    (h : (Stage.start text).read limits = .refused stop) :
    (stop.draft limits).height ≤ (limits.callDepth + 1) * (limits.treeDepth + 2) := by
  obtain ⟨hlow, hmark⟩ := Stage.low_of_refused h
  have hinnermost : (stop.innermost limits).height = stop.config.markedHeight :=
    height_hang _ _ _ _ 0
  have hgrow : ∀ {m n : Nat}, m ≤ n →
      m * (limits.treeDepth + 2) ≤ n * (limits.treeDepth + 2) :=
    fun hle => Nat.mul_le_mul_right _ hle
  rw [Stop.draft]
  rcases hmark with ⟨hmark, hcalls⟩ | ⟨hmark, hcalls⟩
  · refine Nat.le_trans (height_failDraft_le hlow Nat.one_pos ?_) (hgrow (by omega))
    omega
  · refine Nat.le_trans (height_failDraft_le hlow (Nat.succ_pos 1) ?_) (hgrow (by omega))
    omega

/-! ### Calls inside each other -/

namespace Expr

mutual

/-- The calls inside each other in an expression are those in its piece. -/
theorem callDepth_piece (e : Expr) :
    greatest (e.piece.values.map Token.callDepth) = e.callDepth := by
  cases e with
  | number | text | name => rw [piece, callDepth]; rfl
  | call f es =>
      rw [piece, callDepth, Piece.values, List.map_singleton, greatest_cons, greatest_nil,
        Nat.max_zero, Token.callDepth_call, callDepth_trees es]
  | paren inner =>
      rw [piece, callDepth, Piece.values, List.map_cons, greatest_cons, callDepth_piece inner]
      exact Nat.zero_max _
  | binary op left right =>
      rw [piece, callDepth, Piece.values, List.map_append, List.map_cons, greatest_append,
        greatest_cons, callDepth_piece left, callDepth_piece right]
      exact congrArg (max left.callDepth) (Nat.zero_max _)

/-- The calls inside each other in the trees of arguments. -/
theorem callDepth_trees (es : List Expr) :
    greatest ((trees es).map Tree.callDepth) = listCallDepth es := by
  cases es with
  | nil => rw [trees, listCallDepth]; rfl
  | cons e es =>
      rw [trees, listCallDepth, List.map_cons, greatest_cons, callDepth_trees es,
        Draft.callDepth_arena]
      simp only [Draft.values, List.reverse_nil, List.flatMap_nil, List.nil_append,
        List.flatMap_cons, List.append_nil, List.map_cons, greatest_cons, callDepth_piece e]
      exact congrArg (max · (listCallDepth es)) (Nat.zero_max _)

end

end Expr

theorem callDepth_left_le {parts : List OpenPart} {op : Operator} {left : Expr}
    (h : .operator op left ∈ parts) : left.callDepth ≤ partsCallDepth parts := by
  induction parts with
  | nil => simp at h
  | cons part parts ih =>
      cases part with
      | bracket => exact ih (by simpa using h)
      | operator other first =>
          rw [partsCallDepth]
          rcases List.mem_cons.mp h with heq | h
          · obtain ⟨rfl, rfl⟩ := OpenPart.operator.inj heq
            exact Nat.le_max_left _ _
          · exact Nat.le_trans (ih h) (Nat.le_max_right _ _)

/-- The calls inside each other in the tree of open parts. -/
theorem callDepth_partsDraft_le (outer : List OpenCall) (parts : List OpenPart)
    (operand : Option Expr) : ∀ token ∈ (partsDraft (rootToken outer) parts operand).values,
      token.callDepth ≤ max (partsCallDepth parts) (formulaCallDepth operand) := by
  have hpiece : ∀ e : Expr, ∀ token ∈ e.piece.values, token.callDepth ≤ e.callDepth := by
    intro e token htoken
    rw [← e.callDepth_piece]
    exact greatest_le.mp (Nat.le_refl _) _ (List.mem_map_of_mem htoken)
  refine forall_values_partsDraft ?_ (Nat.zero_le _) (fun _ => Nat.zero_le _) ?_ ?_
  · rcases rootToken_cases outer with hroot | hroot <;> rw [hroot] <;> exact Nat.zero_le _
  · intro op left hmem token htoken
    have hleft := callDepth_left_le hmem
    exact Nat.le_trans (hpiece left token htoken) (Nat.le_trans hleft (Nat.le_max_left _ _))
  · intro e he token htoken
    obtain rfl : operand = some e := he
    exact Nat.le_trans (hpiece e token htoken) (Nat.le_max_right _ _)

theorem callDepth_hang_le {outer : List OpenCall} {parts : List OpenPart}
    {operand : Option Expr} {token : Token} {levels k : Nat}
    (hparts : max (partsCallDepth parts) (formulaCallDepth operand) ≤ k)
    (htoken : token.callDepth ≤ k) :
    Tree.callDepth ((partsDraft (rootToken outer) parts operand).hang
      (.leaf token levels)).arena ≤ k := by
  rw [Draft.callDepth_arena, greatest_le]
  intro depth hdepth
  obtain ⟨other, hother, rfl⟩ := List.mem_map.mp hdepth
  rw [Draft.values_hang] at hother
  rcases List.mem_append.mp hother with hother | hother
  · exact Nat.le_trans (callDepth_partsDraft_le outer parts operand other hother) hparts
  · rw [List.mem_singleton.mp hother]
    exact htoken

/-- Each call around a failure that is ended is one more call around what is inside. -/
theorem callDepth_failDraft_le {k : Nat} {d : Draft Token} {outer : List OpenCall}
    (hd : outer.length + Tree.callDepth d.arena ≤ k) (houter : outerCallDepth outer ≤ k) :
    Tree.callDepth (failDraft d outer).arena ≤ k := by
  induction outer generalizing d with
  | nil =>
      rw [List.length_nil, Nat.zero_add] at hd
      exact hd
  | cons call outer ih =>
      rw [outerCallDepth] at houter
      rw [List.length_cons] at hd
      have hdone : greatest ((call.done.map Expr.argumentTree).map Tree.callDepth) =
          Expr.listCallDepth call.done := by
        rw [← Expr.trees_eq_map, Expr.callDepth_trees]
      have hcall : (Token.call call.name ((call.done.map Expr.argumentTree).reverse ++
          [d.arena])).callDepth =
            max (Expr.listCallDepth call.done) (Tree.callDepth d.arena) + 1 := by
        rw [Token.callDepth_call, List.map_append, greatest_append, List.map_reverse,
          greatest_perm (List.reverse_perm _), hdone]
        simp
      refine ih ?_ (by omega)
      have hhang := @callDepth_hang_le outer call.parts none (Token.call call.name
        ((call.done.map Expr.argumentTree).reverse ++ [d.arena])) (Token.call call.name
        ((call.done.map Expr.argumentTree).reverse ++ [d.arena])).levels (k - outer.length)
        (by rw [formulaCallDepth]; omega) (by rw [hcall]; omega)
      rw [callLeaf]
      omega

/-- **Calls nest no deeper than is allowed where reading fails.** -/
theorem callDepth_stop_le {limits : Limits} {text : List Char} {stop : Stop}
    (h : (Stage.start text).read limits = .refused stop) :
    Tree.callDepth (stop.draft limits).arena ≤ limits.callDepth := by
  have hdepth := (Stage.regular_of_refused h).callDepth_le
  rw [Config.callDepth] at hdepth
  refine callDepth_failDraft_le ?_ (by omega)
  have hhang := @callDepth_hang_le stop.config.outer stop.config.parts stop.config.operand
    (stop.mark limits) 0 (limits.callDepth - stop.config.outer.length) (by omega) (Nat.zero_le _)
  have hinnermost : Tree.callDepth (stop.innermost limits).arena ≤
    limits.callDepth - stop.config.outer.length := hhang
  omega

/-- The calls inside each other in the tree of a formula. -/
theorem callDepth_formulaDraft_le (f : Option Expr) :
    Tree.callDepth (formulaDraft f).arena ≤ formulaCallDepth f := by
  rw [Draft.callDepth_arena, greatest_le]
  intro depth hdepth
  obtain ⟨token, htoken, rfl⟩ := List.mem_map.mp hdepth
  have hle := callDepth_partsDraft_le [] [] f token htoken
  rw [partsCallDepth, Nat.zero_max] at hle
  exact hle

end Formula
