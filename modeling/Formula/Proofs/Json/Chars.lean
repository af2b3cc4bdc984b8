/-
JSON values and their characters.

The text of a value is put together by appending to what has been written so far, which is how it
is done fast.  `chars` is the same text without anything before it.  What is proved of all values
goes through `induct`, and `IsPlain` is what has to be known of the numbers in a value.
-/
import Formula.Json
import Formula.Proofs.Number.Literal

namespace Formula.Json

/-! ### Texts as lists of characters -/

mutual

/-- The characters of the compact text of a value. -/
def chars : Json → List Char
  | null => ['n', 'u', 'l', 'l']
  | count n => Nat.toDigits 10 n
  | number x => (numberText x).toList
  | string text => (quote text).toList
  | array [] => ['[', ']']
  | array (item :: items) => '[' :: (chars item ++ (moreItems items ++ [']']))
  | object [] => ['\x7b', '\x7d']
  | object ((name, value) :: fields) =>
    '\x7b' :: ((quote name).toList ++ ':' :: (chars value ++ (moreFields fields ++ ['\x7d'])))

/-- The items of an array that come after its first one. -/
def moreItems : List Json → List Char
  | [] => []
  | item :: items => ',' :: (chars item ++ moreItems items)

/-- The fields of an object that come after its first one. -/
def moreFields : List (String × Json) → List Char
  | [] => []
  | (name, value) :: fields =>
    ',' :: ((quote name).toList ++ ':' :: (chars value ++ moreFields fields))

end

mutual

theorem toList_write (out : String) : (v : Json) → (write out v).toList = out.toList ++ chars v
  | null => by simp [write, chars]
  | count n => by simp [write, chars]
  | number x => by simp [write, chars]
  | string text => by simp [write, chars]
  | array [] => by simp [write, chars]
  | array (item :: items) => by
    rw [write, String.toList_append, toList_writeItems, toList_write]
    simp [chars]
  | object [] => by simp [write, chars]
  | object ((name, value) :: fields) => by
    rw [write, String.toList_append, toList_writeFields, toList_write]
    simp [chars]

theorem toList_writeItems (out : String) :
    (items : List Json) → (writeItems out items).toList = out.toList ++ moreItems items
  | [] => by simp [writeItems, moreItems]
  | item :: items => by
    rw [writeItems, toList_writeItems, toList_write]
    simp [moreItems]

theorem toList_writeFields (out : String) :
    (fields : List (String × Json)) →
      (writeFields out fields).toList = out.toList ++ moreFields fields
  | [] => by simp [writeFields, moreFields]
  | (name, value) :: fields => by
    rw [writeFields, toList_writeFields, toList_write]
    simp [moreFields]

end

theorem toList_text (v : Json) : v.text.toList = v.chars := by
  rw [text, toList_write]
  rfl

/-- Parts one after the other with commas between them, up to the end of the last one. -/
def sequence {α : Type} (f : α → List Char) (ending : Char) : List α → List Char
  | [] => [ending]
  | a :: as => f a ++ (as.flatMap (fun b => ',' :: f b) ++ [ending])

/-- The characters of a field of an object. -/
def fieldChars (field : String × Json) : List Char :=
  (quote field.1).toList ++ ':' :: field.2.chars

theorem moreItems_eq (items : List Json) :
    moreItems items = items.flatMap fun item => ',' :: chars item := by
  induction items with
  | nil => rfl
  | cons item items ih => rw [moreItems, ih, List.flatMap_cons, List.cons_append]

theorem moreFields_eq (fields : List (String × Json)) :
    moreFields fields = fields.flatMap fun field => ',' :: fieldChars field := by
  induction fields with
  | nil => rfl
  | cons field fields ih => simp [moreFields, ih, fieldChars]

theorem chars_array (items : List Json) :
    (array items).chars = '[' :: sequence chars ']' items := by
  cases items with
  | nil => rfl
  | cons item items => rw [chars, sequence, moreItems_eq]

theorem chars_object (fields : List (String × Json)) :
    (object fields).chars = '\x7b' :: sequence fieldChars '\x7d' fields := by
  cases fields with
  | nil => rfl
  | cons field fields => simp [chars, sequence, moreFields_eq, fieldChars]

/-! ### Induction over values -/

/-- What holds of a value if it holds of what is in it holds of all values. -/
theorem induct {P : Json → Prop} (null : P null) (count : ∀ n, P (count n))
    (number : ∀ x, P (number x)) (string : ∀ text, P (string text))
    (array : ∀ items, (∀ item ∈ items, P item) → P (array items))
    (object : ∀ fields, (∀ field ∈ fields, P field.2) → P (object fields)) : (v : Json) → P v
  | .null => null
  | .count n => count n
  | .number x => number x
  | .string text => string text
  | .array items => array items fun item _ =>
    induct null count number string array object item
  | .object fields => object fields fun field _ =>
    induct null count number string array object field.2
termination_by v => v
decreasing_by
  · have hlt := List.sizeOf_lt_of_mem (show item ∈ items from ‹_›)
    simp only [Json.array.sizeOf_spec]
    omega
  · have hlt := List.sizeOf_lt_of_mem (show field ∈ fields from ‹_›)
    have hvalue : sizeOf field = 1 + sizeOf field.1 + sizeOf field.2 := rfl
    simp only [Json.object.sizeOf_spec]
    omega

/-! ### The numbers in a value -/

mutual

/-- The numbers in a value. -/
def numbers : Json → List Binary64
  | number x => [x]
  | array items => itemNumbers items
  | object fields => fieldNumbers fields
  | _ => []

/-- The numbers in the items of an array. -/
def itemNumbers : List Json → List Binary64
  | [] => []
  | item :: items => numbers item ++ itemNumbers items

/-- The numbers in the fields of an object. -/
def fieldNumbers : List (String × Json) → List Binary64
  | [] => []
  | (_, value) :: fields => numbers value ++ fieldNumbers fields

end

/-- All numbers in the value are finite and have no sign. -/
def IsPlain (v : Json) : Prop := ∀ x ∈ v.numbers, x.IsPlain

@[simp] theorem isPlain_null : null.IsPlain := by simp [IsPlain, numbers]

@[simp] theorem isPlain_count (n : Nat) : (count n).IsPlain := by simp [IsPlain, numbers]

@[simp] theorem isPlain_number {x : Binary64} : (number x).IsPlain ↔ x.IsPlain := by
  simp [IsPlain, numbers]

@[simp] theorem isPlain_string (text : String) : (string text).IsPlain := by
  simp [IsPlain, numbers]

@[simp] theorem isPlain_array {items : List Json} :
    (array items).IsPlain ↔ ∀ item ∈ items, item.IsPlain := by
  rw [IsPlain, numbers]
  induction items with
  | nil => simp [itemNumbers]
  | cons item items ih =>
      rw [itemNumbers, List.forall_mem_append, List.forall_mem_cons, ih]
      rfl

@[simp] theorem isPlain_object {fields : List (String × Json)} :
    (object fields).IsPlain ↔ ∀ field ∈ fields, field.2.IsPlain := by
  rw [IsPlain, numbers]
  induction fields with
  | nil => simp [fieldNumbers]
  | cons field fields ih =>
      rw [fieldNumbers, List.forall_mem_append, List.forall_mem_cons, ih]
      rfl

end Formula.Json
