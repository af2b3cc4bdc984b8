/-
Results are known from their JSON.

The JSON of a result leaves out the positions, the parents and the heights of the nodes, and
numbers are compared by value there and here.  Yet two results have the same text in JSON exactly
if they are equal, whatever was read and with whatever limits, and also where reading failed:
the tree can be told from the text, since it is grown, and so can the failure, since reading
names its causes itself.  All numbers in a result are finite, so every result equals itself.
-/
import Formula.Proofs.Json.Failure
import Formula.Proofs.Reading.Growth
import Formula.Proofs.Tree.Equality
import Formula.Proofs.Tree.Json

namespace Formula

variable {limits others : Limits} {source text : String}

/-! ### Failures -/

theorem own_of_failure {failure : Failure} (h : (parse limits source).failure = some failure) :
    failure.cause.IsOwn := by
  cases houtcome : (Stage.start source.toList).read limits with
  | accepted f =>
      rw [parse_of_accepted houtcome] at h
      cases h
  | refused stop =>
      rw [parse_of_refused houtcome] at h
      obtain rfl := Option.some.inj h
      obtain ⟨ws, t, -, hnext⟩ := Stage.leads_of_refused houtcome
      exact Stage.own_of_next hnext

/-- The JSON of failures that reading names tells whether there is one, and which. -/
theorem failureJson_injective {a b : Option Failure} (ha : ∀ failure ∈ a, failure.cause.IsOwn)
    (hb : ∀ failure ∈ b, failure.cause.IsOwn) (h : Parsed.failureJson a = Parsed.failureJson b) :
    a = b := by
  cases a with
  | none =>
      cases b with
      | none => rfl
      | some failure => simp [Parsed.failureJson, Failure.json] at h
  | some failure =>
      cases b with
      | none => simp [Parsed.failureJson, Failure.json] at h
      | some other => rw [Failure.json_injective (ha failure rfl) (hb other rfl) h]

theorem isPlain_failureJson (failure : Option Failure) : (Parsed.failureJson failure).IsPlain := by
  cases failure with
  | none => exact Json.isPlain_null
  | some failure =>
      obtain ⟨cause, line, context⟩ := failure
      cases cause <;> simp [Parsed.failureJson, Failure.json, Cause.json]

/-! ### Results -/

theorem Parsed.eq_of_parts {a b : Parsed} (htree : a.tree = b.tree)
    (hfailure : a.failure = b.failure) : a = b := by
  obtain ⟨tree, failure⟩ := a
  obtain rfl : tree = b.tree := htree
  obtain rfl : failure = b.failure := hfailure
  rfl

theorem isPlain_json (limits : Limits) (source : String) : (parse limits source).json.IsPlain := by
  rw [Parsed.json, Json.isPlain_object]
  simpa using ⟨(grown_parse limits source).isPlain_json, isPlain_failureJson _⟩

/-- Results with the same JSON are the same. -/
theorem eq_of_json (h : (parse limits source).json = (parse others text).json) :
    parse limits source = parse others text := by
  rw [Parsed.json, Parsed.json] at h
  simp only [Json.object.injEq, List.cons.injEq, Prod.mk.injEq, true_and, and_true] at h
  obtain ⟨htree, hfailure⟩ := h
  have htrees := (grown_parse limits source).eq_of_json (grown_parse others text) htree
  have hfailures := failureJson_injective (fun _ => own_of_failure) (fun _ => own_of_failure)
    hfailure
  exact Parsed.eq_of_parts htrees hfailures

/-- Results are equal only if they are the same. -/
theorem equals_iff : (parse limits source).equals (parse others text) = true ↔
    parse limits source = parse others text := by
  rw [Parsed.equals, Bool.and_eq_true,
    (grown_parse limits source).equals_iff (grown_parse others text), beq_iff_eq]
  constructor
  · rintro ⟨htree, hfailure⟩
    exact Parsed.eq_of_parts htree hfailure
  · intro h
    rw [h]
    exact ⟨rfl, rfl⟩

/-- **Results have the same text in JSON exactly if they are equal**, and every result equals
itself: all numbers in its trees are finite. -/
theorem json_text_complete (limits others : Limits) (source text : String) :
    ((parse limits source).json.text = (parse others text).json.text ↔
      (parse limits source).equals (parse others text) = true) ∧
    (parse limits source).equals (parse limits source) = true ∧
    ∀ t : Tree, (parse limits source).tree.IsPart t → ∀ (id : NodeId) (x : Binary64),
      t.value? id = some (.number x) → x.isNaN = false ∧ x.isFinite = true := by
  refine ⟨?_, equals_iff.mpr rfl, ?_⟩
  · rw [equals_iff]
    constructor
    · intro h
      exact eq_of_json (Json.text_injective (isPlain_json _ _) (isPlain_json _ _) h)
    · intro h
      rw [h]
  · intro t ht id x hid
    have hplain := ((grown_parse limits source).part ht).isPlain_number hid
    exact ⟨hplain.isNaN_eq, hplain.1⟩

end Formula
