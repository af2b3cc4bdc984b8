/-
Heights counted anew.

The height that a node carries is put together while the tree grows.  Here it is counted again
from nothing but the links: `Tree.countedAt` follows them down to the last level, and into the
arguments of calls.  `Json.nodeLevels` counts once more, in the JSON that a tree is written as.
In a grown tree all three agree (`Grown.heightAt_eq`, `Grown.nodeLevels_json`).
-/
import Formula.Proofs.Tree.Grown
import Formula.Token.Json

namespace Formula

/-! ### The greatest of some numbers -/

/-- The greatest of some numbers; zero if there are none. -/
def greatest (ns : List Nat) : Nat := ns.foldl max 0

@[simp] theorem greatest_nil : greatest [] = 0 := rfl

@[simp] theorem greatest_cons (n : Nat) (ns : List Nat) :
    greatest (n :: ns) = max n (greatest ns) := by
  rw [greatest, List.foldl_cons, Nat.max_comm, List.foldl_assoc]
  rfl

theorem greatest_append (ms ns : List Nat) :
    greatest (ms ++ ns) = max (greatest ms) (greatest ns) := by
  induction ms with
  | nil => simp
  | cons m ms ih => rw [List.cons_append, greatest_cons, greatest_cons, ih, Nat.max_assoc]

theorem greatest_le {ns : List Nat} {k : Nat} : greatest ns ≤ k ↔ ∀ n ∈ ns, n ≤ k := by
  induction ns with
  | nil => simp
  | cons n ns ih => rw [greatest_cons, Nat.max_le, ih, List.forall_mem_cons]

theorem greatest_perm {ms ns : List Nat} (h : ms.Perm ns) : greatest ms = greatest ns := by
  refine Nat.le_antisymm ?_ ?_ <;> rw [greatest_le]
  · exact fun n hn => greatest_le.mp (Nat.le_refl _) n (h.mem_iff.mp hn)
  · exact fun n hn => greatest_le.mp (Nat.le_refl _) n (h.mem_iff.mpr hn)

/-! ### Levels below a node -/

/-- The levels below a node, from the links alone; the value of a node says how many levels it
brings along, and `fuel` bounds those that are looked at. -/
def Arena.levelsAt (t : Arena Nat) : (fuel : Nat) → NodeId → Nat
  | 0, _ => 0
  | fuel + 1, id =>
    max ((t.value? id).getD 0) (greatest ((t.children id).map fun c => t.levelsAt fuel c + 1))

namespace Nested

mutual

/-- The levels below the topmost node, where each value says how many levels it brings along. -/
def levels : Nested Nat → Nat
  | node value children => max value (allLevels children)

/-- The levels that some trees put below a node. -/
def allLevels : List (Nested Nat) → Nat
  | [] => 0
  | n :: ns => max (n.levels + 1) (allLevels ns)

end

theorem levels_eq (n : Nested Nat) :
    n.levels = max n.value (greatest (n.children.map fun c => c.levels + 1)) := by
  have hall : ∀ ns : List (Nested Nat), allLevels ns = greatest (ns.map fun c => c.levels + 1) := by
    intro ns
    induction ns with
    | nil => rfl
    | cons n ns ih => rw [allLevels, List.map_cons, greatest_cons, ih]
  cases n with
  | node value children => rw [levels, hall]; rfl

theorem heights_eq (ns : List (Nested Token)) :
    heights ns = greatest (ns.map fun n => n.height + 1) := by
  induction ns with
  | nil => rfl
  | cons n ns ih => rw [heights, List.map_cons, greatest_cons, ih]

/-- The levels of a tree of tokens are its height, if the levels of its tokens are right. -/
theorem levels_map {f : Token → Nat} {n : Nested Token}
    (hf : ∀ token ∈ n.preorder, f token = token.levels) : (n.map f).levels = n.height := by
  induction n using induct with
  | step n ih =>
      have htop : f n.value = n.value.levels :=
        hf _ (mem_preorder.mpr ⟨n, n.self_mem_subtrees, rfl⟩)
      rw [levels_eq, height_eq, value_map, children_map, htop, heights_eq, List.map_map]
      refine congrArg (max n.value.levels) (congrArg greatest (List.map_congr_left fun c hc => ?_))
      rw [Function.comp_apply,
        ih c hc fun token htoken => hf token (mem_preorder_of_mem_children hc htoken)]

end Nested

/-- Following the links counts the levels of what is read back. -/
theorem Arena.levelsAt_of_nestedAt? {t : Arena Nat} {fuel : Nat} {id : NodeId} {n : Nested Nat}
    (h : t.nestedAt? fuel id = some n) : t.levelsAt fuel id = n.levels := by
  induction fuel generalizing id n with
  | zero => cases h
  | succ fuel ih =>
      have hchildren := map_eq_of_mapM (g := fun c => t.levelsAt fuel c + 1)
        (k := fun c => c.levels + 1) (fun c m hm => by rw [ih hm]) (children_of_nestedAt? h)
      rw [levelsAt, value?_of_nestedAt? h, hchildren, Option.getD_some, Nested.levels_eq]

/-! ### Trees of tokens -/

/-- The levels that a call brings along, from the levels that the tokens in its arguments bring
along. -/
def Token.callLevels (arguments : List (Arena Nat)) : Nat :=
  greatest (arguments.map fun a => a.levelsAt a.size Arena.root + 1)

/-- The levels that a token brings along, counted from the links inside it. -/
def Token.countedLevels (token : Token) : Nat :=
  token.fold (fun _ => 0) fun _ arguments => callLevels arguments

/-- The number of levels below a node of a tree, counted from the links alone. -/
def Tree.countedAt (t : Tree) (id : NodeId) : Nat :=
  (t.foldTokens (fun _ => 0) fun _ arguments => Token.callLevels arguments).levelsAt t.size id

theorem Token.levels_eq (token : Token) :
    token.levels = greatest (token.arguments.map fun a => a.height + 1) := by
  cases token <;> rfl

theorem Token.countedLevels_eq (token : Token) :
    token.countedLevels = greatest (token.arguments.map fun a => a.countedAt Arena.root + 1) := by
  rcases token.call_or_leaf with ⟨name, as, rfl⟩ | hleaf
  · rw [countedLevels, fold_call, callLevels, arguments, List.map_map]
    refine congrArg greatest (List.map_congr_left fun a _ => ?_)
    rw [Function.comp_apply, Arena.size_foldTokens, Tree.countedAt]
  · rw [countedLevels, fold_leaf hleaf]
    cases token with
    | call name as => exact absurd rfl (hleaf name as)
    | _ => rfl

/-- What a node shows has as many levels as are counted below it. -/
theorem Tree.Shows.countedAt {t : Tree} {id : NodeId} {s : Nested Token} (h : t.Shows id s)
    (hle : s.size ≤ t.size) : t.countedAt id = (s.map Token.countedLevels).levels := by
  refine Arena.levelsAt_of_nestedAt? ?_
  rw [Arena.nestedAt?_foldTokens, h.nestedAt? _ hle]
  rfl

theorem Tree.Grown.size_pos {t : Tree} (h : t.Grown) : 0 < t.size := by
  cases h with
  | @intro n _ _ _ =>
      rw [Nested.size_arena]
      exact n.size_pos

/-- **Every node of a grown tree carries the number of levels below it.** -/
theorem Tree.Grown.heightAt_eq {t : Tree} (h : t.Grown) :
    ∀ id < t.size, t.heightAt id = t.countedAt id := by
  induction h with
  | @intro n hformed _ hargument ih =>
      have hcounted : ∀ token ∈ n.preorder, token.countedLevels = token.levels := by
        intro token htoken
        rw [Token.countedLevels_eq, Token.levels_eq]
        refine congrArg greatest (List.map_congr_left fun a ha => ?_)
        have hroot := ih token htoken a ha Arena.root (hargument token htoken a ha).size_pos
        rw [← hroot]
        rfl
      intro id hid
      obtain ⟨s, hs, hshows⟩ := hformed.exists_shows hid
      have hle : s.size ≤ n.arena.size := by
        rw [Nested.size_arena]
        exact Nested.size_le_of_mem_subtrees hs
      rw [hshows.heightAt, hshows.countedAt hle]
      refine (Nested.levels_map fun token htoken => hcounted token ?_).symm
      obtain ⟨r, hr, rfl⟩ := Nested.mem_preorder.mp htoken
      exact Nested.mem_preorder.mpr ⟨r, Nested.mem_subtrees_trans hr hs, rfl⟩

/-! ### Levels in JSON -/

namespace Json

/-- An object that stands for a node of a tree. -/
def isNode (fields : List (String × Json)) : Bool := fields.map (·.1) = ["token", "children"]

mutual

/-- The number of nodes of trees inside each other in a value. -/
def nodeLevels : Json → Nat
  | object fields => (if isNode fields then 1 else 0) + fieldLevels fields
  | array items => itemLevels items
  | _ => 0

/-- The same for the items of an array. -/
def itemLevels : List Json → Nat
  | [] => 0
  | item :: items => max item.nodeLevels (itemLevels items)

/-- The same for the fields of an object. -/
def fieldLevels : List (String × Json) → Nat
  | [] => 0
  | (_, value) :: fields => max value.nodeLevels (fieldLevels fields)

end

theorem itemLevels_eq (items : List Json) : itemLevels items = greatest (items.map nodeLevels) := by
  induction items with
  | nil => rfl
  | cons item items ih => rw [itemLevels, List.map_cons, greatest_cons, ih]

theorem nodeLevels_tagged (kind : String) (value : Json) :
    (Token.tagged kind value).nodeLevels = value.nodeLevels := by
  simp [Token.tagged, nodeLevels, fieldLevels, isNode]

end Json

namespace Nested

theorem jsonList_eq_map (ns : List (Nested Json)) : jsonList ns = ns.map json := by
  induction ns with
  | nil => rfl
  | cons n ns ih => rw [jsonList, ih]; rfl

theorem json_eq (n : Nested Json) :
    n.json = .object [("token", n.value), ("children", .array (n.children.map json))] := by
  cases n with
  | node value children => rw [json, jsonList_eq_map]; rfl

/-- A tree is written with one node more inside each other than it has levels. -/
theorem nodeLevels_json {f : Token → Json} {n : Nested Token}
    (hf : ∀ token ∈ n.preorder, (f token).nodeLevels = token.levels) :
    (n.map f).json.nodeLevels = n.height + 1 := by
  induction n using induct with
  | step n ih =>
      have htop : (f n.value).nodeLevels = n.value.levels :=
        hf _ (mem_preorder.mpr ⟨n, n.self_mem_subtrees, rfl⟩)
      have hbelow : ((n.map f).children.map json).map Json.nodeLevels =
          n.children.map fun c => c.height + 1 := by
        rw [children_map, List.map_map, List.map_map]
        refine List.map_congr_left fun c hc => ?_
        exact ih c hc fun token htoken => hf token (mem_preorder_of_mem_children hc htoken)
      rw [json_eq, Json.nodeLevels, value_map, height_eq, heights_eq, ← hbelow]
      simp [Json.fieldLevels, Json.isNode, Json.nodeLevels, Json.itemLevels_eq, htop]
      omega

end Nested

theorem Token.json_call (name : String) (arguments : List Tree) :
    (Token.call name arguments).json = tagged "function"
      (.object [("name", .string name), ("arguments", .array (arguments.map Tree.json))]) := by
  rw [json, fold_call, callJson, List.map_map]
  rfl

theorem Tree.json_eq {n : Nested Token} (h : n.Formed) :
    Tree.json n.arena = (n.map Token.json).json := by
  rw [Tree.json, Arena.json, Nested.nested?_foldTokens_arena _ _ h.leading_eq]
  rfl

/-- **A grown tree is written with one node more inside each other than it is high.** -/
theorem Tree.Grown.nodeLevels_json {t : Tree} (h : t.Grown) :
    t.json.nodeLevels = t.height + 1 := by
  induction h with
  | @intro n hformed _ _ ih =>
      have hheight : n.arena.height = n.height := (Nested.shows_root hformed.leading_eq).heightAt
      rw [Tree.json_eq hformed, hheight]
      refine Nested.nodeLevels_json fun token htoken => ?_
      rcases token.call_or_leaf with ⟨name, as, rfl⟩ | hleaf
      · have hlist : (as.map Tree.json).map Json.nodeLevels = as.map fun a => a.height + 1 := by
          rw [List.map_map]
          exact List.map_congr_left fun a ha => ih _ htoken a ha
        rw [Token.json_call, Json.nodeLevels_tagged, Token.levels_eq]
        simp [Json.nodeLevels, Json.fieldLevels, Json.isNode, Json.itemLevels_eq, hlist,
          Token.arguments]
      · rw [Token.json, Token.fold_leaf hleaf]
        cases token with
        | call name as => exact absurd rfl (hleaf name as)
        | _ =>
            simp [Token.leafJson, Token.tagged, Json.nodeLevels, Json.fieldLevels, Json.isNode,
              Token.levels]

/-! ### Calls inside each other -/

/-- The greatest number in a tree of numbers. -/
def Arena.deepest (t : Arena Nat) : Nat := greatest (t.nodes.toList.map (·.value))

/-- The number of calls inside each other in a token. -/
def Token.callDepth (token : Token) : Nat :=
  token.fold (fun _ => 0) fun _ arguments => greatest (arguments.map Arena.deepest) + 1

/-- The number of calls inside each other in a tree. -/
def Tree.callDepth (t : Tree) : Nat :=
  Arena.deepest (t.foldTokens (fun _ => 0) fun _ arguments =>
    greatest (arguments.map Arena.deepest) + 1)

theorem Token.callDepth_call (name : String) (arguments : List Tree) :
    (Token.call name arguments).callDepth = greatest (arguments.map Tree.callDepth) + 1 := by
  rw [callDepth, fold_call, List.map_map]
  rfl

theorem Draft.callDepth_arena (d : Draft Token) :
    Tree.callDepth d.arena = greatest (d.values.map Token.callDepth) := by
  rw [Tree.callDepth, Arena.deepest, Arena.nodes_foldTokens, List.map_map, ← values_nodes,
    List.map_map]
  rfl

end Formula
