/-
How high the trees of results are.

The height that a node carries is the number of levels below it, in every tree of a result, and
the JSON of a tree has one node more inside each other.  A formula that is accepted keeps to the
limits.  Where reading fails, calls still keep to their limit, but the tree can be higher than
is allowed: each call around the failure adds a tree of its own.  The bound for this is exact.
`tallText` reaches it: brackets up to the limit, then a call, and again in the argument of the
call, up to the limit of calls; and one bracket too many in the last argument.
-/
import Formula.Proofs.Language
import Formula.Proofs.Reading.Bounds

namespace Formula

/-! ### A text whose tree is as high as can be -/

/-- Brackets up to the limit, in `n` calls inside each other. -/
def tallText (depth : Nat) : (n : Nat) → List Char
  | 0 => List.replicate depth '('
  | n + 1 => tallText depth n ++ 'f' :: '(' :: List.replicate depth '('

/-- The words of that text. -/
def tallWords (depth : Nat) : (n : Nat) → List Word
  | 0 => List.replicate depth .opening
  | n + 1 => tallWords depth n ++ .function "f" :: List.replicate depth .opening

/-- What has been read of a text of that kind, with `brackets` open ones in the last argument. -/
def tallConfig (depth n brackets : Nat) : Config :=
  ⟨List.replicate brackets .bracket, none,
    List.replicate n ⟨"f", List.replicate depth .bracket, []⟩⟩

theorem words?_openings (depth : Nat) (rest : List Char) :
    words? (List.replicate depth '(' ++ rest) =
      (words? rest).map (List.replicate depth .opening ++ ·) := by
  induction depth with
  | zero => simp
  | succ depth ih =>
      have hlex : lex ((List.replicate (depth + 1) '(' ++ rest).dropWhile Text.isBlank) =
          .word .opening ['('] (List.replicate depth '(' ++ rest) := rfl
      rw [words?_word hlex, ih, Option.map_map]
      rfl

theorem words?_call (rest : List Char) :
    words? ('f' :: '(' :: rest) = (words? rest).map (.function "f" :: ·) := by
  have hletter : Lexeme.starting (some 'f') = .identifier := by decide +kernel
  have hbracket : continuesIdentifier '(' = false := by decide +kernel
  have hlex : lex (('f' :: '(' :: rest).dropWhile Text.isBlank) =
      .word (.function "f") ['f', '('] rest := by
    rw [List.dropWhile_cons_of_neg (by decide), lex, hletter, lexAs, lexName]
    simp [hbracket]
  exact words?_word hlex

theorem words?_tallText (depth n : Nat) (rest : List Char) :
    words? (tallText depth n ++ rest) = (words? rest).map (tallWords depth n ++ ·) := by
  induction n generalizing rest with
  | zero => exact words?_openings depth rest
  | succ n ih =>
      rw [tallText, List.append_assoc, ih, List.cons_append, List.cons_append, words?_call,
        words?_openings, Option.map_map, Option.map_map, tallWords]
      simp [Function.comp_def]

theorem partsHeight_brackets (h n : Nat) :
    partsHeight h (List.replicate n .bracket) = h + n := by
  induction n generalizing h with
  | zero => rfl
  | succ n ih =>
      rw [List.replicate_succ, partsHeight, ih]
      omega

theorem takes_openings {limits : Limits} {outer : List OpenCall}
    (hcalls : outer.length ≤ limits.callDepth) {depth : Nat} (hdepth : depth ≤ limits.treeDepth) :
    Takes limits ⟨[], none, outer⟩ (List.replicate depth .opening)
      ⟨List.replicate depth .bracket, none, outer⟩ := by
  induction depth with
  | zero => exact .nil _
  | succ depth ih =>
      have hlast : Takes limits ⟨List.replicate depth .bracket, none, outer⟩ [.opening]
          ⟨.bracket :: List.replicate depth .bracket, none, outer⟩ := by
        refine .one rfl ⟨hcalls, ?_⟩
        show partsHeight 0 (List.replicate (depth + 1) .bracket) ≤ limits.treeDepth
        rw [partsHeight_brackets]
        omega
      rw [List.replicate_succ']
      exact (ih (by omega)).append hlast

theorem takes_tallWords {limits : Limits} {n : Nat} (h : n ≤ limits.callDepth) :
    Takes limits Config.start (tallWords limits.treeDepth n)
      (tallConfig limits.treeDepth n limits.treeDepth) := by
  induction n with
  | zero => exact takes_openings (Nat.zero_le _) (Nat.le_refl _)
  | succ n ih =>
      have hlength : (List.replicate (n + 1)
          (OpenCall.mk "f" (List.replicate limits.treeDepth .bracket) [])).length ≤
            limits.callDepth := by
        rw [List.length_replicate]
        exact h
      refine (ih (by omega)).append (.cons rfl ⟨hlength, Nat.zero_le _⟩ ?_)
      exact takes_openings hlength (Nat.le_refl _)

/-- The tree that remains of that text has the height of one tree for each call. -/
theorem height_failDraft_tall (depth n brackets : Nat) (d : Draft Token) :
    (failDraft d (tallConfig depth n brackets).outer).height = d.height + n * (depth + 2) := by
  induction n generalizing d with
  | zero => rw [Nat.zero_mul]; rfl
  | succ n ih =>
      have hlevels : (Token.call "f" [d.arena]).levels = d.height + 1 := by
        rw [Token.levels_eq, Token.arguments, List.map_singleton, greatest_cons, greatest_nil,
          Nat.max_zero, d.height_arena]
      rw [tallConfig] at ih ⊢
      simp only at ih ⊢
      rw [List.replicate_succ, failDraft, ih, callLeaf, height_hang, formulaHeight, Nat.zero_max,
        partsHeight_brackets]
      simp only [List.map_nil, List.reverse_nil, List.nil_append]
      rw [hlevels, Nat.succ_mul]
      omega

/-- With one bracket more than is allowed in the last argument, the whole tree has the height of
that argument's tree and of one tree for each call. -/
theorem height_draft_tall {limits : Limits} {stop : Stop} {n : Nat}
    (hconfig : stop.config = tallConfig limits.treeDepth n (limits.treeDepth + 1)) :
    (stop.draft limits).height = (n + 1) * (limits.treeDepth + 2) := by
  have hinnermost : (stop.innermost limits).height = limits.treeDepth + 2 := by
    rw [Stop.innermost, hconfig]
    refine (height_hang _ _ _ _ _).trans ?_
    rw [tallConfig, partsHeight_brackets]
    simp only [formulaHeight]
    omega
  rw [Stop.draft, hconfig, height_failDraft_tall, hinnermost, Nat.succ_mul]
  omega

theorem words?_tallText_opening (depth n : Nat) :
    words? (tallText depth n ++ ['(']) = some (tallWords depth n ++ [.opening]) := by
  have hbracket : words? ['('] = some [.opening] := by
    have hopening := words?_openings 1 []
    have hnil : words? [] = some [] := words?_endOfText rfl
    rw [hnil] at hopening
    exact hopening
  rw [words?_tallText, hbracket]
  rfl

/-- One bracket too many in the last argument makes the tree as high as can be. -/
theorem tallText_refused (limits : Limits) : ∃ stop,
    (Stage.start (tallText limits.treeDepth limits.callDepth ++ ['('])).read limits =
      .refused stop ∧
    (stop.draft limits).height = (limits.callDepth + 1) * (limits.treeDepth + 2) := by
  obtain ⟨t, hleads, hconfig, hrest⟩ := @Stage.leads_of_takes limits
    (Stage.start (tallText limits.treeDepth limits.callDepth ++ ['('])) _ _ _
    (takes_tallWords (Nat.le_refl _)) (words?_tallText_opening _ _)
  rcases words?_eq_some hrest with ⟨hnil, -⟩ | ⟨w, lexeme, rest, ws, hcons, hlex, -⟩
  · cases hnil
  obtain ⟨rfl, rfl⟩ := List.cons.inj hcons
  -- the last bracket is taken, and only then is the tree too high
  have hfeed : t.config.feed .opening =
      .ok (tallConfig limits.treeDepth limits.callDepth (limits.treeDepth + 1)) := by
    rw [hconfig]
    rfl
  have hcalls : (tallConfig limits.treeDepth limits.callDepth (limits.treeDepth + 1)).outer.length
      ≤ limits.callDepth := Nat.le_of_eq List.length_replicate
  have hheight : limits.treeDepth <
      (tallConfig limits.treeDepth limits.callDepth (limits.treeDepth + 1)).height := by
    show limits.treeDepth < partsHeight 0 (List.replicate (limits.treeDepth + 1) .bracket)
    rw [partsHeight_brackets]
    omega
  have hread := Stage.read_refused (Stage.next_of_tooDeep hlex hfeed hcalls hheight)
  rw [← hleads.read_eq] at hread
  exact ⟨_, hread, height_draft_tall rfl⟩

/-! ### All results -/

/-- How high the tree of a result is, and how deep its calls nest. -/
theorem bounds_parse (limits : Limits) (source : String) :
    (parse limits source).tree.callDepth ≤ limits.callDepth ∧
      (parse limits source).tree.height ≤ if (parse limits source).isOk then limits.treeDepth
        else (limits.callDepth + 1) * (limits.treeDepth + 2) := by
  cases houtcome : (Stage.start source.toList).read limits with
  | accepted f =>
      obtain ⟨-, -, hcalls, hheight⟩ := Stage.read_eq_accepted_iff.mp houtcome
      rw [parse_of_accepted houtcome, if_pos (by simp [Parsed.isOk]), height_formulaDraft]
      exact ⟨Nat.le_trans (callDepth_formulaDraft_le f) hcalls, hheight⟩
  | refused stop =>
      rw [parse_of_refused houtcome, if_neg (by simp [Parsed.isOk]), Draft.height_arena]
      exact ⟨callDepth_stop_le houtcome, height_stop_le houtcome⟩

/-- **Heights are exact and bounded.**  In every tree of a result each node carries the number of
levels below it, the JSON of the tree has one node more inside each other than the tree is
high, and calls nest no deeper than is allowed.  A formula keeps to the height that is allowed;
a tree that remains of a failure keeps to a bound that takes in the calls around it, and for all
limits there is a text that reaches this bound. -/
theorem height_exact (limits : Limits) :
    (∀ source : String,
      (∀ t : Tree, (parse limits source).tree.IsPart t →
        ∀ id < t.size, t.heightAt id = Tree.countedAt t id) ∧
      (parse limits source).tree.json.nodeLevels = (parse limits source).tree.height + 1 ∧
      (parse limits source).tree.callDepth ≤ limits.callDepth ∧
      (parse limits source).tree.height ≤ if (parse limits source).isOk then limits.treeDepth
        else (limits.callDepth + 1) * (limits.treeDepth + 2)) ∧
    ∃ source : String, (parse limits source).isOk = false ∧
      (parse limits source).tree.height = (limits.callDepth + 1) * (limits.treeDepth + 2) := by
  constructor
  · intro source
    have hgrown := grown_parse limits source
    obtain ⟨hcalls, hheight⟩ := bounds_parse limits source
    refine ⟨?_, hgrown.nodeLevels_json, hcalls, hheight⟩
    intro t ht id hid
    exact (hgrown.part ht).heightAt_eq id hid
  · obtain ⟨stop, hread, hheight⟩ := tallText_refused limits
    refine ⟨String.ofList (tallText limits.treeDepth limits.callDepth ++ ['(']), ?_⟩
    have hrefused := @parse_of_refused limits
      (String.ofList (tallText limits.treeDepth limits.callDepth ++ ['('])) stop
      (by rw [String.toList_ofList]; exact hread)
    rw [hrefused, Draft.height_arena]
    exact ⟨rfl, hheight⟩

end Formula
